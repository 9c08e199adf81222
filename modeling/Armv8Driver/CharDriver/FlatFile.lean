import Armv8Driver.CharDriver.Bounds
import Armv8Driver.CharDriver.Seek

/-!
# The driver against a flat file

`FlatFile` says what the driver is for: 256 bytes, a position in them for each open file, and transfers
that end at the last byte. The driver and the file take every call together, and they agree on it when
they return the same and still hold the same bytes and positions afterwards.
-/

namespace Armv8Driver.CharDriver

open Kernel Transition

/-- The bytes of a file and the position of each open file in it. -/
structure FlatFile where
  content : Fin 256 → Byte
  pos : Nat → Nat
  pos_le : ∀ f, pos f ≤ 256

namespace FlatFile

def moveTo (F : FlatFile) (f p : Nat) (hp : p ≤ 256) : FlatFile where
  content := F.content
  pos := Function.update F.pos f p
  pos_le g := by
    by_cases hg : g = f
    · rw [hg, Function.update_self]
      exact hp
    · rw [Function.update_of_ne hg]
      exact F.pos_le g

/-- The number of bytes from `p` that a request for `count` bytes covers. -/
def length (p count : Nat) : Nat := min count (256 - p)

/-- Where a seek leads, over the unbounded integers. -/
def target (F : FlatFile) (f : Nat) (offset whence : Int) : Option Int :=
  if whence = SEEK_SET then some offset
  else if whence = SEEK_CUR then some (F.pos f + offset)
  else if whence = SEEK_END then some (MAX_KERNEL_BUFFER + offset)
  else none

def lseek (F : FlatFile) (f : Nat) (offset whence : Int) : Transfer × FlatFile :=
  match F.target f offset whence with
  | none => (⟨-EINVAL, F.pos f, 0, []⟩, F)
  | some t =>
    if h : 0 ≤ t ∧ t ≤ 256 then (⟨t, t, 0, []⟩, F.moveTo f t.toNat (by omega))
    else (⟨-EINVAL, F.pos f, 0, []⟩, F)

/-- The bytes of the file that a read of `k` bytes delivers. -/
def bytes (F : FlatFile) (p k : Nat) (h : p + k ≤ 256) : List Byte :=
  List.ofFn fun j : Fin k => F.content ⟨p + j, by omega⟩

theorem length_le (F : FlatFile) (f count : Nat) : F.pos f + length (F.pos f) count ≤ 256 := by
  have hpos := F.pos_le f
  unfold length
  omega

def read (F : FlatFile) (f count : Nat) : Transfer × FlatFile :=
  let k := length (F.pos f) count
  if k = 0 then (⟨-ENOMEM, F.pos f, 0, []⟩, F)
  else (⟨k, F.pos f + k, k, F.bytes (F.pos f) k (F.length_le f count)⟩,
    F.moveTo f (F.pos f + k) (F.length_le f count))

def store (F : FlatFile) (p : Nat) (buff : Nat → Byte) (k : Nat) : FlatFile :=
  { F with content := fun q => if p ≤ q ∧ q < p + k then buff (q - p) else F.content q }

def write (F : FlatFile) (f : Nat) (buff : Nat → Byte) (count : Nat) : Transfer × FlatFile :=
  let k := length (F.pos f) count
  if k = 0 then (⟨-ENOMEM, F.pos f, 0, []⟩, F)
  else (⟨k, F.pos f + k, k, []⟩,
    (F.store (F.pos f) buff k).moveTo f (F.pos f + k) (F.length_le f count))

/-- A flat file has no calls that bring their own position. -/
def syscall (F : FlatFile) : Call → Transfer × FlatFile
  | .lseek f offset whence => F.lseek f offset whence
  | .read f count _ => F.read f count
  | .write f buff count _ => F.write f buff count
  | .pread pos .. | .pwrite pos .. => (⟨-EINVAL, pos, 0, []⟩, F)

end FlatFile

/-- The buffer holds the bytes of the file, and the open files have its positions. -/
structure Represents (s : State) (F : FlatFile) : Prop where
  content : ∀ q : Fin 256, s.mem q = F.content q
  pos : ∀ f, s.f_pos f = F.pos f

/-- A seek, a read or a write whose user copy succeeds. -/
def Call.Plain : Call → Prop
  | .lseek .. => True
  | .read _ _ uncopied | .write _ _ _ uncopied => uncopied = 0
  | .pread .. | .pwrite .. => False

/-- The driver and a flat file, taking each call together. -/
def paired : System (State × FlatFile) Call where
  init x := x.1.Initial ∧ Represents x.1 x.2
  step x c := some ((syscall x.1 c).2, (x.2.syscall c).2)

/-- The call returns what it returns on the file, and leaves the bytes and positions of the file. -/
def Agrees (x : State × FlatFile) (c : Call) : Prop :=
  (syscall x.1 c).1 = (x.2.syscall c).1 ∧ Represents (syscall x.1 c).2 (x.2.syscall c).2

/-- The transfer starts at the first byte or is cut at the last one. -/
def Call.Clamped (s : State) (c : Call) : Prop :=
  ∀ pos count, c.request s = some (pos, count) → pos = 0 ∨ MAX_KERNEL_BUFFER < pos + count

variable {s : State} {F : FlatFile} {f count : Nat} {c : Call}

theorem Represents.moveTo {x : Int} {p : Nat} (h : Represents s F) (hp : p ≤ 256) (hx : x = p) :
    Represents { s with f_pos := Function.update s.f_pos f x } (F.moveTo f p hp) where
  content := h.content
  pos g := by
    show Function.update s.f_pos f x g = (Function.update F.pos f p g : Nat)
    by_cases hg : g = f
    · rw [hg, Function.update_self, Function.update_self]
      exact hx
    · rw [Function.update_of_ne hg, Function.update_of_ne hg]
      exact h.pos g

/-- A seek whose sum wraps around has a target outside the file, so it fails on both sides. -/
theorem dev_lseek_eq (F : FlatFile) (f : Nat) {offset whence : Int} (hlo : -2 ^ 63 ≤ offset) (hhi : offset < 2 ^ 63) :
    dev_lseek (F.pos f) offset whence =
      match F.target f offset whence with
      | none => (-EINVAL, (F.pos f : Int))
      | some t => if 0 ≤ t ∧ t ≤ 256 then (t, t) else (-EINVAL, (F.pos f : Int)) := by
  have hpos := F.pos_le f
  have htarget : F.target f offset whence = seekTarget (F.pos f) offset whence := rfl
  rw [dev_lseek_eq_seekTo (by omega) (by omega) hlo hhi, htarget]
  cases seekTarget (F.pos f) offset whence with
  | none => rfl
  | some t =>
    show seekTo (F.pos f) t = if 0 ≤ t ∧ t ≤ 256 then (t, t) else (-EINVAL, (F.pos f : Int))
    by_cases hin : 0 ≤ t ∧ t ≤ 256
    · rw [seekTo_of_in hin, if_pos hin]
    · rw [seekTo_of_out hin, if_neg hin]

theorem lseek_agrees {offset whence : Int} (h : Represents s F) (hlo : -2 ^ 63 ≤ offset) (hhi : offset < 2 ^ 63) :
    Agrees (s, F) (.lseek f offset whence) := by
  have hstay : Represents { s with f_pos := Function.update s.f_pos f (F.pos f) } F := by
    rw [← h.pos f, Function.update_eq_self]
    exact h
  simp only [Agrees, syscall, FlatFile.syscall, FlatFile.lseek, h.pos f, @dev_lseek_eq F f _ whence hlo hhi]
  cases F.target f offset whence with
  | none => exact ⟨rfl, hstay⟩
  | some t =>
    by_cases hin : 0 ≤ t ∧ t ≤ 256
    · simp only [if_pos hin, dif_pos hin]
      exact ⟨trivial, h.moveTo (by omega) (by omega)⟩
    · simp only [if_neg hin, dif_neg hin]
      exact ⟨trivial, hstay⟩

/-- Inside the buffer the sum does not wrap, so the clamp is exact. -/
theorem transfer_bytes_of_le {p : Nat} (hp : p ≤ 256) (hcount : count ≤ MAX_RW_COUNT) :
    transfer_bytes p count = if (p : Int) + count ≤ MAX_KERNEL_BUFFER then (p : Int) + count else MAX_KERNEL_BUFFER - p := by
  have hcount' : count < 2 ^ 32 := Nat.lt_of_le_of_lt hcount (by decide)
  have hsum : s64 (u64 (p + count)) = p + count := by
    unfold s64 u64
    omega
  have hdiff : s64 (MAX_KERNEL_BUFFER - p) = MAX_KERNEL_BUFFER - p := by
    unfold s64 MAX_KERNEL_BUFFER
    omega
  simp only [transfer_bytes, hsum, hdiff]
  split_ifs <;> omega

/-- A clamped transfer has the length of the file's. -/
theorem transfer_bytes_clamped (hcount : count ≤ MAX_RW_COUNT)
    (hcl : (F.pos f : Int) = 0 ∨ MAX_KERNEL_BUFFER < (F.pos f : Int) + count) :
    transfer_bytes (F.pos f) count = FlatFile.length (F.pos f) count := by
  have hpos := F.pos_le f
  rw [transfer_bytes_of_le hpos hcount]
  unfold FlatFile.length
  unfold MAX_KERNEL_BUFFER at hcl ⊢
  split_ifs <;> omega

/-- Any other transfer is longer than its count. -/
theorem transfer_bytes_unclamped (hcount : count ≤ MAX_RW_COUNT)
    (hcl : ¬ ((F.pos f : Int) = 0 ∨ MAX_KERNEL_BUFFER < (F.pos f : Int) + count)) :
    FlatFile.length (F.pos f) count < (transfer_bytes (F.pos f) count).toNat := by
  have hpos := F.pos_le f
  rw [transfer_bytes_of_le hpos hcount, if_pos (by omega)]
  unfold FlatFile.length
  omega

theorem FlatFile.read_size : (F.read f count).1.size = FlatFile.length (F.pos f) count := by
  simp only [FlatFile.read]
  split_ifs with hzero
  · exact hzero.symm
  · rfl

theorem FlatFile.write_size {buff : Nat → Byte} : (F.write f buff count).1.size = FlatFile.length (F.pos f) count := by
  simp only [FlatFile.write]
  split_ifs with hzero
  · exact hzero.symm
  · rfl

section Copied

variable {p k : Nat} {mem : Memory}

theorem s64_end (h : p + k ≤ 256) : s64 ((p : Int) + k) = p + k := by
  unfold s64
  omega

theorem dev_read_of_bytes (hk : transfer_bytes p count = k) (hend : p + k ≤ 256) :
    dev_read mem p count 0 =
      if k = 0 then ⟨-ENOMEM, p, 0, []⟩
      else ⟨k, p + k, k, (List.range k).map fun j : Nat => mem (p + j)⟩ := by
  by_cases hzero : k = 0
  · have hneg : (k : Int) < 0 ∨ (k : Int) = 0 := by omega
    simp only [dev_read, hk, if_pos hneg, if_pos hzero]
  · have hneg : ¬ ((k : Int) < 0 ∨ (k : Int) = 0) := by omega
    simp only [dev_read, hk, if_neg hneg, if_neg hzero, Nat.zero_min, Int.natCast_zero, Int.sub_zero, s64_end hend,
      Int.toNat_natCast]

theorem dev_write_of_bytes {buff : Nat → Byte} (hk : transfer_bytes p count = k) (hend : p + k ≤ 256) :
    dev_write mem p buff count 0 =
      if k = 0 then (⟨-ENOMEM, p, 0, []⟩, mem)
      else (⟨k, p + k, k, []⟩, copy_from_user mem p buff k 0) := by
  by_cases hzero : k = 0
  · have hneg : (k : Int) < 0 ∨ (k : Int) = 0 := by omega
    simp only [dev_write, hk, if_pos hneg, if_pos hzero]
  · have hneg : ¬ ((k : Int) < 0 ∨ (k : Int) = 0) := by omega
    simp only [dev_write, hk, if_neg hneg, if_neg hzero, Nat.zero_min, Int.natCast_zero, Int.sub_zero, s64_end hend,
      Int.toNat_natCast]

/-- The kernel bytes of a read are the bytes of the file. -/
theorem Represents.bytes (h : Represents s F) (hend : p + k ≤ 256) :
    ((List.range k).map fun j : Nat => s.mem (p + j)) = F.bytes p k hend := by
  apply List.ext_getElem
  · simp [FlatFile.bytes]
  · intro j hj hj'
    have hlt : j < k := by simpa using hj
    have hbyte := h.content ⟨p + j, by omega⟩
    simpa [FlatFile.bytes] using hbyte

/-- A copy that leaves nothing uncopied is a store. -/
theorem Represents.store {buff : Nat → Byte} (h : Represents s F) :
    Represents { s with mem := copy_from_user s.mem p buff k 0 } (F.store p buff k) where
  content q := by
    have hq := h.content q
    simp only [copy_from_user, FlatFile.store]
    by_cases hin : p ≤ (q : Nat) ∧ (q : Nat) < p + k
    · have hin' : (p : Int) ≤ (q : Nat) ∧ ((q : Nat) : Int) < p + k := by omega
      have hcopied : ((q : Nat) : Int) < p + k - (0 : Nat) := by omega
      rw [if_pos hin, if_pos hin', if_pos hcopied]
      congr 1
      omega
    · have hin' : ¬ ((p : Int) ≤ (q : Nat) ∧ ((q : Nat) : Int) < p + k) := by omega
      rw [if_neg hin, if_neg hin']
      exact hq
  pos := h.pos

end Copied

theorem read_agrees (h : Represents s F) (hcount : count ≤ MAX_RW_COUNT)
    (hcl : s.f_pos f = 0 ∨ MAX_KERNEL_BUFFER < s.f_pos f + count) : Agrees (s, F) (.read f count 0) := by
  rw [h.pos f] at hcl
  have hread := @dev_read_of_bytes count (F.pos f) _ s.mem (transfer_bytes_clamped hcount hcl) (F.length_le f count)
  simp only [Agrees, syscall, FlatFile.syscall, FlatFile.read, State.advance, h.pos f, hread]
  by_cases hzero : FlatFile.length (F.pos f) count = 0
  · simp only [if_pos hzero]
    exact ⟨trivial, h⟩
  · simp only [if_neg hzero, h.bytes (F.length_le f count)]
    exact ⟨trivial, h.moveTo (F.length_le f count) rfl⟩

theorem write_agrees {buff : Nat → Byte} (h : Represents s F) (hcount : count ≤ MAX_RW_COUNT)
    (hcl : s.f_pos f = 0 ∨ MAX_KERNEL_BUFFER < s.f_pos f + count) : Agrees (s, F) (.write f buff count 0) := by
  rw [h.pos f] at hcl
  have hwrite := @dev_write_of_bytes count (F.pos f) _ s.mem buff (transfer_bytes_clamped hcount hcl) (F.length_le f count)
  simp only [Agrees, syscall, FlatFile.syscall, FlatFile.write, State.advance, h.pos f, hwrite]
  by_cases hzero : FlatFile.length (F.pos f) count = 0
  · simp only [if_pos hzero]
    exact ⟨trivial, h⟩
  · simp only [if_neg hzero]
    exact ⟨trivial, h.store.moveTo (F.length_le f count) rfl⟩

theorem plain_agrees_iff (h : Represents s F) (hc : c.Valid) (hplain : c.Plain) :
    Agrees (s, F) c ↔ c.Clamped s := by
  constructor
  · intro hagree pos count hreq
    have hsize := congrArg Transfer.size hagree.1
    rw [syscall_size hreq] at hsize
    cases c with
    | lseek => cases hreq
    | read f count uncopied =>
      cases hreq
      rw [h.pos f] at hsize ⊢
      by_contra hcl
      have hlonger := transfer_bytes_unclamped hc hcl
      rw [hsize] at hlonger
      exact absurd FlatFile.read_size (Nat.ne_of_gt hlonger)
    | write f buff count uncopied =>
      cases hreq
      rw [h.pos f] at hsize ⊢
      by_contra hcl
      have hlonger := transfer_bytes_unclamped hc hcl
      rw [hsize] at hlonger
      exact absurd FlatFile.write_size (Nat.ne_of_gt hlonger)
    | pread => exact hplain.elim
    | pwrite => exact hplain.elim
  · intro hcl
    cases c with
    | lseek f offset whence => exact lseek_agrees h hc.1 hc.2
    | read f count uncopied =>
      have hzero : uncopied = 0 := hplain
      rw [hzero]
      exact read_agrees h hc (hcl _ _ rfl)
    | write f buff count uncopied =>
      have hzero : uncopied = 0 := hplain
      rw [hzero]
      exact write_agrees h hc (hcl _ _ rfl)
    | pread => exact hplain.elim
    | pwrite => exact hplain.elim

/-! ### Runs -/

/-- The byte at `q` after a call, as the caller sees it: what a write reports as written, or `b`. -/
def stored (q : Int) (b : Byte) (s : State) (c : Call) : Byte :=
  match c with
  | .write f buff _ _ =>
    if s.f_pos f ≤ q ∧ q < s.f_pos f + (syscall s c).1.ret then buff (q - s.f_pos f).toNat else b
  | _ => b

/-- The byte most recently written at `q` by the calls made from `s`, or `b` if there is none. -/
def lastWritten (q : Int) (b : Byte) (s : State) : List Call → Byte
  | [] => b
  | c :: rest => lastWritten q (stored q b s c) (syscall s c).2 rest

/-- A run that looks to its callers like a run on a flat file. -/
structure FlatRun (s : State) (F : FlatFile) (calls : List Call) : Prop where
  agrees : paired.Along Agrees (s, F) calls
  size_le : driver.Along (fun s c => ∀ pos count, c.request s = some (pos, count) → (syscall s c).1.size ≤ count) s calls
  read_lastWritten : ∀ first f count rest t, calls = first ++ Call.read f count 0 :: rest → driver.run s first = some t →
    ∀ (j : Nat) b, (syscall t (.read f count 0)).1.data[j]? = some b → b = lastWritten (t.f_pos f + j) 0 s first

theorem along_paired {P : State → Call → Prop} {calls : List Call} :
    paired.Along (fun x c => P x.1 c) (s, F) calls ↔ driver.Along P s calls := by
  induction calls generalizing s F with
  | nil => exact Iff.rfl
  | cons c rest ih =>
    constructor
    · rintro ⟨hp, hrest⟩
      refine ⟨hp, fun t ht => ?_⟩
      cases ht
      exact ih.mp (hrest _ rfl)
    · rintro ⟨hp, hrest⟩
      refine ⟨hp, fun x hx => ?_⟩
      cases hx
      exact ih.mpr (hrest _ rfl)

theorem run_paired {calls : List Call} {t : State} (F : FlatFile) (hrun : driver.run s calls = some t) :
    ∃ G, paired.run (s, F) calls = some (t, G) := by
  induction calls generalizing s F with
  | nil =>
    cases hrun
    exact ⟨F, rfl⟩
  | cons c rest ih => exact ih (F.syscall c).2 hrun

theorem Agrees.size_le (h : Agrees (s, F) c) (pos : Int) (count : Nat) (hreq : c.request s = some (pos, count)) :
    (syscall s c).1.size ≤ count := by
  rw [h.1]
  cases c with
  | lseek => cases hreq
  | read f count uncopied =>
    cases hreq
    calc (F.read f count).1.size = FlatFile.length (F.pos f) count := FlatFile.read_size
      _ ≤ count := Nat.min_le_left _ _
  | write f buff count uncopied =>
    cases hreq
    calc (F.write f buff count).1.size = FlatFile.length (F.pos f) count := FlatFile.write_size
      _ ≤ count := Nat.min_le_left _ _
  | pread => exact Nat.zero_le _
  | pwrite => exact Nat.zero_le _

/-- A call of the file stores what its return value reports. -/
theorem Agrees.stored (hs : Represents s F) (h : Agrees (s, F) c) (q : Fin 256) :
    (syscall s c).2.mem q = stored q (s.mem q) s c := by
  have hret := congrArg Transfer.ret h.1
  rw [h.2.content q, hs.content q]
  cases c with
  | lseek f offset whence =>
    show (F.lseek f offset whence).2.content q = F.content q
    unfold FlatFile.lseek
    cases F.target f offset whence with
    | none => rfl
    | some t =>
      by_cases hin : 0 ≤ t ∧ t ≤ 256
      · simp only [dif_pos hin]
        rfl
      · simp only [dif_neg hin]
  | read f count uncopied =>
    show (F.read f count).2.content q = F.content q
    simp only [FlatFile.read]
    by_cases hzero : FlatFile.length (F.pos f) count = 0
    · rw [if_pos hzero]
    · rw [if_neg hzero]
      rfl
  | write f buff count uncopied =>
    have hret' : (syscall s (.write f buff count uncopied)).1.ret = (F.write f buff count).1.ret := hret
    show (F.write f buff count).2.content q = _
    simp only [CharDriver.stored, hret', hs.pos f, FlatFile.write]
    by_cases hzero : FlatFile.length (F.pos f) count = 0
    · simp only [if_pos hzero]
      rw [if_neg]
      unfold ENOMEM
      omega
    · simp only [if_neg hzero]
      show (if F.pos f ≤ (q : Nat) ∧ (q : Nat) < F.pos f + FlatFile.length (F.pos f) count then _ else _) = _
      by_cases hin : F.pos f ≤ (q : Nat) ∧ (q : Nat) < F.pos f + FlatFile.length (F.pos f) count
      · rw [if_pos hin, if_pos (by omega)]
        congr 1
        omega
      · rw [if_neg hin, if_neg (by omega)]
  | pread => rfl
  | pwrite => rfl

/-- After a run like that of a file, each byte is the one most recently written. -/
theorem mem_eq_lastWritten {calls : List Call} {t : State} {G : FlatFile} (hs : Represents s F)
    (hagree : paired.Along Agrees (s, F) calls) (hrun : paired.run (s, F) calls = some (t, G)) :
    Represents t G ∧ ∀ q : Fin 256, t.mem q = lastWritten q (s.mem q) s calls := by
  induction calls generalizing s F with
  | nil =>
    cases hrun
    exact ⟨hs, fun _ => rfl⟩
  | cons c rest ih =>
    obtain ⟨hrep, hmem⟩ := ih hagree.1.2 (hagree.2 _ rfl) hrun
    refine ⟨hrep, fun q => ?_⟩
    rw [hmem q, hagree.1.stored hs q]
    rfl

theorem read_eq_lastWritten {calls first rest : List Call} {t : State} {j : Nat} {b : Byte} (hinit : s.Initial) (hs : Represents s F)
    (hagree : paired.Along Agrees (s, F) calls) (hcalls : calls = first ++ Call.read f count 0 :: rest)
    (hrun : driver.run s first = some t) (hb : (syscall t (.read f count 0)).1.data[j]? = some b) :
    b = lastWritten (t.f_pos f + j) 0 s first := by
  obtain ⟨G, hpaired⟩ := run_paired F hrun
  rw [hcalls, System.Along.append_iff] at hagree
  obtain ⟨hrep, hmem⟩ := mem_eq_lastWritten hs hagree.1 hpaired
  have hread : (syscall t (.read f count 0)).1 = (G.read f count).1 := (hagree.2 _ hpaired).1.1
  have hend := G.length_le f count
  rw [hread] at hb
  simp only [FlatFile.read] at hb
  by_cases hzero : FlatFile.length (G.pos f) count = 0
  · rw [if_pos hzero] at hb
    cases hb
  · rw [if_neg hzero] at hb
    simp only [FlatFile.bytes, List.getElem?_ofFn] at hb
    by_cases hj : j < FlatFile.length (G.pos f) count
    · rw [dif_pos hj, Option.some_inj] at hb
      have hmem' := hmem ⟨G.pos f + j, by omega⟩
      have hzero' : s.mem (G.pos f + j : Nat) = 0 := hinit.2 _ (by omega) (by unfold MAX_KERNEL_BUFFER; omega)
      rw [← hb, ← hrep.content, hmem', hzero', hrep.pos f]
      rfl
    · rw [dif_neg hj] at hb
      cases hb

/-- The driver is a flat file in a run, exactly when each transfer of the run starts at the first byte
or is cut at the last one. -/
theorem flatRun_iff (s : State) (F : FlatFile) (calls : List Call) (hs : s.Initial) (hF : Represents s F)
    (hcalls : ∀ c ∈ calls, c.Valid ∧ c.Plain) :
    FlatRun s F calls ↔ driver.Along (fun s c => c.Clamped s) s calls := by
  have hagree : paired.Along Agrees (s, F) calls ↔ paired.Along (fun x c => c.Clamped x.1) (s, F) calls := by
    apply System.Along.congr (I := fun x => Represents x.1 x.2)
    · intro x hx c hc
      exact plain_agrees_iff hx (hcalls c hc).1 (hcalls c hc).2
    · intro x hx c hc hcl y hy
      cases hy
      exact ((plain_agrees_iff hx (hcalls c hc).1 (hcalls c hc).2).mpr hcl).2
    · exact hF
  rw [along_paired] at hagree
  constructor
  · intro hflat
    exact hagree.mp hflat.agrees
  · intro hcl
    have halong := hagree.mpr hcl
    refine ⟨halong, ?_, ?_⟩
    · exact along_paired.mp (halong.mono fun x c h => h.size_le)
    · intro first f count rest t heq hrun j b hb
      exact read_eq_lastWritten hs hF halong heq hrun hb

def freshFile : FlatFile := ⟨fun _ => 0, fun _ => 0, fun _ => Nat.zero_le _⟩

theorem fresh_represents : Represents fresh freshFile := ⟨fun _ => rfl, fun _ => rfl⟩

theorem overrun_plain : ∀ c ∈ overrun, c.Valid ∧ c.Plain := by
  intro c hc
  refine ⟨overrun_valid c hc, ?_⟩
  simp only [overrun, List.mem_cons, List.not_mem_nil, or_false] at hc
  rcases hc with rfl | rfl
  · trivial
  · rfl

/-- The ten bytes written at position 200 are reported, and copied, as 210. -/
theorem overrun_not_flat :
    fresh.Initial ∧ Represents fresh freshFile ∧ (∀ c ∈ overrun, c.Valid ∧ c.Plain) ∧
      ¬ FlatRun fresh freshFile overrun := by
  refine ⟨fresh_initial, fresh_represents, overrun_plain, ?_⟩
  intro hflat
  have hsize := (hflat.size_le.2 _ rfl).1 200 10 rfl
  exact absurd hsize (by decide)

/-- Ten bytes written, and all of the buffer read back. -/
def rewound : List Call := [.write 0 (fun i => UInt8.ofNat i) 10 0, .lseek 0 0 SEEK_SET, .read 0 300 0]

theorem rewound_flat : FlatRun fresh freshFile rewound := by
  apply (flatRun_iff fresh freshFile rewound fresh_initial fresh_represents ?_).mpr
  · refine ⟨?_, fun t ht => ⟨?_, fun u hu => ⟨?_, fun _ _ => trivial⟩⟩⟩
    · intro pos count hreq
      cases hreq
      exact Or.inl rfl
    · intro pos count hreq
      cases hreq
    · intro pos count hreq
      cases ht
      cases hu
      cases hreq
      exact Or.inl rfl
  · intro c hc
    simp only [rewound, List.mem_cons, List.not_mem_nil, or_false] at hc
    rcases hc with rfl | rfl | rfl <;> simp [Call.Valid, Call.Plain, MAX_RW_COUNT]

end Armv8Driver.CharDriver

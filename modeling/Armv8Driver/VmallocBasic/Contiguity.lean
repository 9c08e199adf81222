import Mathlib.Data.Nat.Count
import Armv8Driver.Transition.Latest
import Armv8Driver.VmallocBasic.Model

/-!
# What `discontig_count` says

`check_vmalloc_contiguity` leaves `prev_pfn` alone where a lookup fails, so that it asks of a page that it
follows on the latest page found, however far before it that is. `check_kmalloc_contiguity` asks of each
page that it lies as far from the first in memory as in the buffer. The two are the same exactly if no
failed lookup lies between two that succeed, as long as `page_num` does not come round to 0.
-/

namespace Armv8Driver.VmallocBasic

open Transition

/-- Where a buffer is, and the pages behind it. -/
structure Buffer where
  vmalloc_to_page : Word → Option Page
  vbuf : Word

namespace Buffer

variable (b : Buffer)

/-- What is found for page `i` of the buffer. -/
def lookup (i : ℕ) : Option Page := b.vmalloc_to_page (b.vbuf + pageOffset i)

def Found (i : ℕ) : Prop := (b.lookup i).isSome = true

instance : DecidablePred b.Found := fun _ => inferInstanceAs (Decidable (_ = true))

/-- The pages found lie in memory as they lie in the buffer. -/
def Linear (n : ℕ) : Prop :=
  ∀ i j, i < j → j < n → ∀ p q, b.lookup i = some p → b.lookup j = some q →
    q.pfn.toNat = p.pfn.toNat + (j - i)

/-- Page `j` follows in memory on the page found before it. -/
def Follows (j : ℕ) : Prop :=
  ∀ i, Latest b.Found j i → ∀ p q, b.lookup i = some p → b.lookup j = some q → q.pfn.toNat = p.pfn.toNat + 1

def Stepwise (n : ℕ) : Prop := ∀ j, j < n → b.Follows j

/-- The check ends, and finds no discontinuity exactly where there is none. -/
def Agree (size : Word) (n : ℕ) : Prop :=
  ∃ r, check_vmalloc_contiguity b.vmalloc_to_page b.vbuf size = some r ∧
    (r.discontig_count = 0 ↔ b.Linear n)

/-! ### Linear and stepwise -/

variable {b : Buffer} {n i j k : ℕ} {p q : Page}

theorem found_of_lookup (h : b.lookup i = some p) : b.Found i := by
  rw [Found, h]
  rfl

theorem Found.lookup (h : b.Found i) : ∃ p, b.lookup i = some p :=
  Option.isSome_iff_exists.mp h

theorem follows_of_failed (h : b.lookup j = none) : b.Follows j := by
  intro i _ p q _ hq
  rw [h] at hq
  cases hq

theorem follows_of_first (h : Nat.count b.Found j = 0) : b.Follows j := by
  intro i hlatest
  have hpos := hlatest.count
  omega

theorem Stepwise.succ (h : b.Stepwise n) (hn : b.Follows n) : b.Stepwise (n + 1) := by
  intro j hj
  rcases Nat.lt_succ_iff_lt_or_eq.mp hj with hlt | rfl
  · exact h j hlt
  · exact hn

/-- Where each page follows on the one found before it, the frames are numbered like the pages found. -/
theorem Stepwise.count (h : b.Stepwise n) (hij : i ≤ j) (hj : j < n)
    (hp : b.lookup i = some p) (hq : b.lookup j = some q) :
    q.pfn.toNat + Nat.count b.Found i = p.pfn.toNat + Nat.count b.Found j := by
  induction j using Nat.strong_induction_on generalizing q with
  | _ j ih =>
    rcases Nat.eq_or_lt_of_le hij with rfl | hlt
    · rw [hp] at hq
      cases hq
      rfl
    · obtain ⟨k, hk, hik⟩ := exists_latest_of_lt hlt (found_of_lookup hp)
      obtain ⟨r, hr⟩ := hk.holds.lookup
      have hkj := hk.lt
      have hstep := h j hj k hk r q hr hq
      have hcount := hk.count
      have hbefore := ih k hkj hik (by omega) hr
      omega

/-- Stepwise frames are linear exactly if there are no gaps. -/
theorem Stepwise.linear_iff (h : b.Stepwise n) :
    b.Linear n ↔ Gapless b.Found n := by
  constructor
  · intro hlinear i j k hij hjk hk hi hfound
    obtain ⟨p, hp⟩ := hi.lookup
    obtain ⟨q, hq⟩ := hfound.lookup
    have hik : i < k := hij.trans hjk
    have hdistance := hlinear i k hik hk p q hp hq
    have hcount := h.count hik.le hk hp hq
    have hall : Nat.count b.Found k = Nat.count b.Found i + (k - i) := by omega
    exact (count_add_sub_iff hik.le).mp hall j hij.le hjk
  · intro hgapless i k hik hk p q hp hq
    have hall : Nat.count b.Found k = Nat.count b.Found i + (k - i) := by
      rw [count_add_sub_iff hik.le]
      intro j hij hjk
      rcases Nat.eq_or_lt_of_le hij with rfl | hlt
      · exact found_of_lookup hp
      · exact hgapless i j k hlt hjk hk (found_of_lookup hp) (found_of_lookup hq)
    have hcount := h.count hik.le hk hp hq
    omega

theorem Linear.stepwise (h : b.Linear n) (hgapless : Gapless b.Found n) :
    b.Stepwise n := by
  intro j hj i hlatest p q hp hq
  have hnext := hlatest.eq_of_gapless hgapless hj (found_of_lookup hq)
  have hdistance := h i j hlatest.lt hj p q hp hq
  omega

/-! ### The scan -/

/-- The check after `n` pages. -/
def scan (b : Buffer) (n : ℕ) : Check := afterPages (checkPage b.vmalloc_to_page b.vbuf) .start n

theorem scan_failed (h : b.lookup n = none) :
    b.scan (n + 1) = { b.scan n with pr_err := (b.scan n).pr_err ++ [pageOffset n] } := by
  unfold lookup at h
  rw [scan, afterPages, ← scan, checkPage, h]

/-- What the loop calls `contig`. -/
def contig (b : Buffer) (n : ℕ) (pg : Page) : Prop :=
  (b.scan n).page_num = 0 ∨ pg.pfn = (b.scan n).prev_pfn + 1

theorem scan_found (h : b.lookup n = some p) :
    (b.scan (n + 1)).prev_pfn = p.pfn ∧
      (b.scan (n + 1)).page_num = (b.scan n).page_num + 1 ∧
      (b.contig n p →
        (b.scan (n + 1)).discontig_count = (b.scan n).discontig_count) ∧
      (¬ b.contig n p →
        (b.scan (n + 1)).discontig_count = (b.scan n).discontig_count + 1) := by
  unfold lookup at h
  have hscan : b.scan (n + 1) =
      checkPage b.vmalloc_to_page b.vbuf (b.scan n) (pageOffset n) := rfl
  rw [hscan, checkPage, h]
  refine ⟨rfl, rfl, fun hcontig => ?_, fun hnot => ?_⟩
  · exact if_pos (decide_eq_true (p := _ ∨ _) hcontig)
  · exact if_neg fun htrue => hnot (of_decide_eq_true (p := _ ∨ _) htrue)

theorem scan_page_num (n : ℕ) :
    (b.scan n).page_num = BitVec.ofNat 32 (Nat.count b.Found n) := by
  induction n with
  | zero => simp [scan, afterPages, Check.start]
  | succ n ih =>
    rw [Nat.count_succ]
    cases h : b.lookup n with
    | none =>
      have hnot : ¬ b.Found n := by simp [Found, h]
      rw [scan_failed h, if_neg hnot]
      exact ih
    | some p =>
      rw [(scan_found h).2.1, ih, if_pos (found_of_lookup h), BitVec.ofNat_add]
      rfl

theorem scan_page_num_eq_zero (n : ℕ) :
    (b.scan n).page_num = 0 ↔ 2 ^ 32 ∣ Nat.count b.Found n := by
  rw [scan_page_num, ← BitVec.toNat_inj, BitVec.toNat_ofNat, Nat.dvd_iff_mod_eq_zero]
  rfl

theorem scan_prev_pfn (hlatest : Latest b.Found n i) (hp : b.lookup i = some p) :
    (b.scan n).prev_pfn = p.pfn := by
  induction n with
  | zero => exact absurd hlatest.lt (Nat.not_lt_zero i)
  | succ n ih =>
    cases h : b.lookup n with
    | none =>
      have hnot : ¬ b.Found n := by simp [Found, h]
      have hlt := hlatest.lt
      have hne : i ≠ n := by
        rintro rfl
        exact hnot hlatest.holds
      rw [scan_failed h]
      exact ih ⟨by omega, hlatest.holds, fun k hik hk => hlatest.none_after k hik (by omega)⟩
    | some q =>
      have hlast : i = n := hlatest.unique (latest_succ (found_of_lookup h))
      subst hlast
      rw [hp] at h
      cases h
      exact (scan_found hp).1

theorem contig_iff (hq : b.lookup n = some q) : b.contig n q ↔ 2 ^ 32 ∣ Nat.count b.Found n ∨ b.Follows n := by
  by_cases hzero : Nat.count b.Found n = 0
  · have hdvd : 2 ^ 32 ∣ Nat.count b.Found n := hzero ▸ Nat.dvd_zero _
    exact iff_of_true (.inl ((scan_page_num_eq_zero n).mpr hdvd)) (.inl hdvd)
  · obtain ⟨i, hlatest⟩ := exists_latest (Nat.pos_of_ne_zero hzero)
    obtain ⟨p, hp⟩ := hlatest.holds.lookup
    have hsucc : (p.pfn + 1).toNat = p.pfn.toNat + 1 := by
      have hphysical := p.physical
      rw [BitVec.toNat_add]
      exact Nat.mod_eq_of_lt (by simp; omega)
    have hfollows : b.Follows n ↔ q.pfn = p.pfn + 1 := by
      rw [← BitVec.toNat_inj, hsucc]
      constructor
      · intro h
        exact h i hlatest p q hp hq
      · intro h i' hlatest' p' q' hp' hq'
        cases hlatest.unique hlatest'
        rw [hp] at hp'
        rw [hq] at hq'
        cases hp'
        cases hq'
        exact h
    rw [contig, scan_page_num_eq_zero, scan_prev_pfn hlatest hp, hfollows]

/-- Where every page is compared and follows, or is not compared, nothing is counted. -/
theorem discontig_count_eq_zero (h : ∀ j, j < n → 2 ^ 32 ∣ Nat.count b.Found j ∨ b.Follows j) :
    (b.scan n).discontig_count = 0 := by
  induction n with
  | zero => rfl
  | succ n ih =>
    have hbelow := ih fun j hj => h j (Nat.lt_succ_of_lt hj)
    cases hn : b.lookup n with
    | none =>
      rw [scan_failed hn]
      exact hbelow
    | some q => rw [(scan_found hn).2.2.1 ((contig_iff hn).mpr (h n (Nat.lt_succ_self n))), hbelow]

/-- While `page_num` has not come round, no more is counted than there are pages compared, and nothing is
counted only where each follows. -/
theorem discontig_count_bound (hcount : Nat.count b.Found n ≤ 2 ^ 32) :
    (b.scan n).discontig_count.toNat ≤ Nat.count b.Found n - 1 ∧
      ((b.scan n).discontig_count = 0 → b.Stepwise n) := by
  induction n with
  | zero => exact ⟨Nat.zero_le _, fun _ j hj => absurd hj (Nat.not_lt_zero j)⟩
  | succ n ih =>
    have hmono : Nat.count b.Found n ≤ Nat.count b.Found (n + 1) := Nat.count_monotone _ (Nat.le_succ n)
    obtain ⟨hbound, hzero⟩ := ih (hmono.trans hcount)
    cases hn : b.lookup n with
    | none =>
      rw [scan_failed hn]
      exact ⟨by dsimp only; omega, fun h => (hzero h).succ (follows_of_failed hn)⟩
    | some q =>
      rw [Nat.count_succ, if_pos (found_of_lookup hn)] at hcount ⊢
      by_cases hcontig : b.contig n q
      · rw [(scan_found hn).2.2.1 hcontig]
        refine ⟨by omega, fun h => (hzero h).succ ?_⟩
        rcases (contig_iff hn).mp hcontig with hdvd | hfollows
        · -- Below 2 ^ 32 only the first page found is not compared.
          exact follows_of_first (Nat.eq_zero_of_dvd_of_lt hdvd (by omega))
        · exact hfollows
      · have hnotzero : Nat.count b.Found n ≠ 0 := by
          intro h
          exact hcontig ((contig_iff hn).mpr (.inl (h ▸ Nat.dvd_zero _)))
        have hnext : ((b.scan n).discontig_count + 1).toNat = (b.scan n).discontig_count.toNat + 1 := by
          rw [BitVec.toNat_add]
          exact Nat.mod_eq_of_lt (by simp; omega)
        rw [(scan_found hn).2.2.2 hcontig]
        refine ⟨by omega, fun h => ?_⟩
        rw [h] at hnext
        exact absurd hnext (by simp)

theorem discontig_count_iff (hcount : Nat.count b.Found n ≤ 2 ^ 32) :
    (b.scan n).discontig_count = 0 ↔ b.Stepwise n :=
  ⟨(discontig_count_bound hcount).2, fun h => discontig_count_eq_zero fun j hj => .inr (h j hj)⟩

/-! ### The two relations -/

variable {size : Word}

theorem agree_iff (hsize : size.toNat = 4096 * n) :
    b.Agree size n ↔ ((b.scan n).discontig_count = 0 ↔ b.Linear n) := by
  have hcheck : check_vmalloc_contiguity b.vmalloc_to_page b.vbuf size = some (b.scan n) := forPages_eq hsize
  constructor
  · rintro ⟨r, hr, hiff⟩
    rw [hcheck] at hr
    cases hr
    exact hiff
  · intro hiff
    exact ⟨b.scan n, hcheck, hiff⟩

/-- What a single buffer has to be like. -/
theorem agree_iff_gapless (hsize : size.toNat = 4096 * n) (hcount : Nat.count b.Found n ≤ 2 ^ 32) :
    b.Agree size n ↔ Gapless b.Found n ∨ ¬ b.Stepwise n ∧ ¬ b.Linear n := by
  rw [agree_iff hsize, discontig_count_iff hcount]
  by_cases hgapless : Gapless b.Found n
  · exact iff_of_true ⟨fun h => h.linear_iff.mpr hgapless, fun h => h.stepwise hgapless⟩ (.inl hgapless)
  · have hnever : b.Stepwise n → ¬ b.Linear n := fun h hlinear => hgapless (h.linear_iff.mp hlinear)
    constructor
    · intro h
      have hnot : ¬ b.Stepwise n := fun hstep => hnever hstep (h.mp hstep)
      exact .inr ⟨hnot, fun hlinear => hnot (h.mpr hlinear)⟩
    · rintro (h | ⟨hstep, hlinear⟩)
      · exact absurd h hgapless
      · exact iff_of_false hstep hlinear

/-! ### Buffers of which the check says too much -/

/-- Some page with that frame. -/
def pageAt (k : ℕ) : Page := ⟨BitVec.ofNat 64 (k % 2 ^ 52), by simp; omega⟩

theorem pageAt_pfn {k : ℕ} (h : k < 2 ^ 52) : (pageAt k).pfn.toNat = k := by
  rw [pageAt, BitVec.toNat_ofNat]
  omega

variable {vbuf : Word} {found : ℕ → Prop} [DecidablePred found] {frame : ℕ → ℕ}

/-- The pages found have frames that depend on how many are found before them. -/
def numbered (vbuf : Word) (found : ℕ → Prop) [DecidablePred found] (frame : ℕ → ℕ) : Buffer where
  vmalloc_to_page a :=
    let i := (a - vbuf).toNat / 4096
    if found i then some (pageAt (frame (Nat.count found i))) else none
  vbuf := vbuf

theorem numbered_lookup (hi : i < 2 ^ 52) :
    (numbered vbuf found frame).lookup i = if found i then some (pageAt (frame (Nat.count found i))) else none := by
  have hindex : (vbuf + pageOffset i - vbuf).toNat / 4096 = i := by
    rw [BitVec.add_comm, BitVec.add_sub_cancel, pageOffset, BitVec.toNat_ofNat]
    omega
  rw [lookup, numbered]
  dsimp only
  rw [hindex]

theorem numbered_found (hi : i < 2 ^ 52) : (numbered vbuf found frame).Found i ↔ found i := by
  rw [Found, numbered_lookup hi]
  split_ifs with h
  · exact iff_of_true rfl h
  · exact iff_of_false nofun h

theorem numbered_count (hn : n ≤ 2 ^ 52) : Nat.count (numbered vbuf found frame).Found n = Nat.count found n :=
  count_congr fun i hi => numbered_found (by omega)

theorem numbered_pfn (hi : i < 2 ^ 52) (hframe : frame (Nat.count found i) < 2 ^ 52)
    (hp : (numbered vbuf found frame).lookup i = some p) : p.pfn.toNat = frame (Nat.count found i) := by
  rw [numbered_lookup hi] at hp
  split_ifs at hp
  cases hp
  exact pageAt_pfn hframe

theorem numbered_follows (hj : j < 2 ^ 52) (hframe : ∀ i, i ≤ j → frame (Nat.count found i) < 2 ^ 52)
    (hstep : ∀ m, Nat.count found j = m + 1 → frame (m + 1) = frame m + 1) :
    (numbered vbuf found frame).Follows j := by
  intro i hlatest p q hp hq
  have hlt := hlatest.lt
  have hcount := hlatest.count
  rw [numbered_count (by omega), numbered_count (by omega)] at hcount
  rw [numbered_pfn (by omega) (hframe i hlt.le) hp, numbered_pfn hj (hframe j le_rfl) hq, hcount]
  exact hstep _ hcount

/-- Counting the pages found leaves no discontinuity and is linear only if there are no gaps. -/
theorem gapless_of_agree (hsize : size.toNat = 4096 * n) (h : (numbered vbuf found id).Agree size n) :
    Gapless found n := by
  have hlt := size.isLt
  have hstepwise : (numbered vbuf found id).Stepwise n := by
    intro j hj
    refine numbered_follows (by omega) (fun i hi => ?_) fun m _ => rfl
    have hle := Nat.count_le (p := found) (n := i)
    dsimp only [id]
    omega
  have hzero := discontig_count_eq_zero fun j hj => .inr (hstepwise j hj)
  have hgapless := hstepwise.linear_iff.mp (((agree_iff hsize).mp h).mp hzero)
  exact (gapless_congr fun i hi => numbered_found (by omega)).mp hgapless

/-- A frame is left out before the page at which `page_num` has come round. -/
def skip (k : ℕ) : ℕ := if k < 2 ^ 32 then k else k + 1

theorem count_le_of_agree (hsize : size.toNat = 4096 * n) (hgapless : Gapless found n)
    (h : (numbered vbuf found skip).Agree size n) : Nat.count found n ≤ 2 ^ 32 := by
  by_contra hmany
  have hlt := size.isLt
  have hframe : ∀ i, i < n → skip (Nat.count found i) < 2 ^ 52 := by
    intro i hi
    have hle := Nat.count_le (p := found) (n := i)
    unfold skip
    split_ifs <;> omega
  have hzero : ((numbered vbuf found skip).scan n).discontig_count = 0 := by
    apply discontig_count_eq_zero
    intro j hj
    rw [numbered_count (by omega)]
    by_cases hround : Nat.count found j = 2 ^ 32
    · exact .inl (hround ▸ dvd_rfl)
    · refine .inr (numbered_follows (by omega) (fun i hi => hframe i (by omega)) fun m hm => ?_)
      unfold skip
      split_ifs <;> omega
  have hlinear := ((agree_iff hsize).mp h).mp hzero
  obtain ⟨j, hj, hfound, hcount⟩ := exists_count_eq (Nat.lt_of_not_le hmany)
  obtain ⟨i, hlatest⟩ := exists_latest (P := found) (n := j) (by omega)
  have hnext := hlatest.eq_of_gapless hgapless hj hfound
  have hbefore := hlatest.count
  have hlookup : ∀ k, k < n → found k → ∃ p, (numbered vbuf found skip).lookup k = some p :=
    fun k hk hfound => ((numbered_found (by omega)).mpr hfound).lookup
  obtain ⟨p, hp⟩ := hlookup i (by omega) hlatest.holds
  obtain ⟨q, hq⟩ := hlookup j hj hfound
  have hdistance := hlinear i j hlatest.lt hj p q hp hq
  have hi : Nat.count found i = 2 ^ 32 - 1 := by omega
  have hskipped : skip (2 ^ 32) = 2 ^ 32 + 1 := if_neg (by omega)
  have hkept : skip (2 ^ 32 - 1) = 2 ^ 32 - 1 := if_pos (by omega)
  rw [numbered_pfn (by omega) (hframe i (by omega)) hp, numbered_pfn (by omega) (hframe j hj) hq, hcount, hi, hskipped,
    hkept] at hdistance
  omega

/-- The two tests agree on all buffers with the same failed lookups exactly if none of these lies between two
that succeed and no more than 2 ^ 32 succeed. Up to there a single buffer with a gap is one on which they agree
only if both find it discontiguous. -/
theorem tests_agree_iff (vbuf : Word) (hsize : size.toNat = 4096 * n) (found : ℕ → Prop) [DecidablePred found] :
    ((∀ b : Buffer, b.vbuf = vbuf → (∀ i, i < n → (b.Found i ↔ found i)) → b.Agree size n) ↔
        Gapless found n ∧ Nat.count found n ≤ 2 ^ 32) ∧
      ∀ b : Buffer, Nat.count b.Found n ≤ 2 ^ 32 →
        (b.Agree size n ↔ Gapless b.Found n ∨ ¬ b.Stepwise n ∧ ¬ b.Linear n) := by
  have hlt := size.isLt
  refine ⟨⟨fun h => ?_, fun h b _ hfound => ?_⟩, fun b hcount => agree_iff_gapless hsize hcount⟩
  · have hnumbered : ∀ frame, (numbered vbuf found frame).Agree size n :=
      fun frame => h _ rfl fun i hi => numbered_found (by omega)
    have hgapless := gapless_of_agree hsize (hnumbered id)
    exact ⟨hgapless, count_le_of_agree hsize hgapless (hnumbered skip)⟩
  · have hcount : Nat.count b.Found n ≤ 2 ^ 32 := by
      rw [count_congr hfound]
      exact h.2
    exact (agree_iff_gapless hsize hcount).mpr (.inl ((gapless_congr hfound).mpr h.1))

/-- Three pages, the lookup of the middle one failing. -/
theorem tests_agree_three :
    ((∀ b : Buffer, b.vbuf = 0 → (∀ i, i < 3 → (b.Found i ↔ i ≠ 1)) → b.Agree 12288 3) ↔
        Gapless (fun i => i ≠ 1) 3 ∧ Nat.count (fun i => i ≠ 1) 3 ≤ 2 ^ 32) ∧
      ∀ b : Buffer, Nat.count b.Found 3 ≤ 2 ^ 32 →
        (b.Agree 12288 3 ↔ Gapless b.Found 3 ∨ ¬ b.Stepwise 3 ∧ ¬ b.Linear 3) :=
  tests_agree_iff 0 (by decide) fun i => i ≠ 1

/-- The frames behind its first and its last page are neighbours. -/
def holed : Buffer where
  vmalloc_to_page a := if a = 0 then some (pageAt 100) else if a = 8192 then some (pageAt 101) else none
  vbuf := 0

/-- No discontinuity is counted for two pages that are two apart and whose frames are one apart. -/
theorem holed_not_agree : ¬ holed.Agree 12288 3 := by
  rintro ⟨r, hr, hiff⟩
  have hcheck : check_vmalloc_contiguity holed.vmalloc_to_page holed.vbuf 12288 = some (holed.scan 3) :=
    forPages_eq rfl
  rw [hcheck] at hr
  cases hr
  have hlinear : holed.Linear 3 := hiff.mp (by decide)
  have hdistance : (101 : ℕ) = 100 + (2 - 0) := hlinear 0 2 (by decide) (by decide) (pageAt 100) (pageAt 101) rfl rfl
  exact absurd hdistance (by decide)

/-! ### The relation of `check_kmalloc_contiguity` -/

section Kmalloc

variable {virt_to_phys : Word → Word} {kbuf base_phys : Word}

theorem checkOffset_all (n : ℕ) :
    (∀ line ∈ afterPages (checkOffset virt_to_phys kbuf base_phys) [] n, line.unexpected = false) ↔
      ∀ i, i < n → virt_to_phys (kbuf + pageOffset i) = base_phys + pageOffset i := by
  induction n with
  | zero => exact iff_of_true nofun fun i hi => absurd hi (Nat.not_lt_zero i)
  | succ n ih =>
    rw [afterPages, checkOffset, List.forall_mem_append, ih, Nat.forall_lt_succ_right, List.forall_mem_singleton]
    simp

/-- No gap is reported exactly if every page lies at its distance from the first. -/
theorem check_kmalloc_contiguity_iff (hsize : size.toNat = 4096 * n) :
    ∃ printed, check_kmalloc_contiguity virt_to_phys kbuf size = some printed ∧
      ((∀ line ∈ printed, line.unexpected = false) ↔
        ∀ i, i < n → virt_to_phys (kbuf + pageOffset i) = virt_to_phys kbuf + pageOffset i) :=
  ⟨_, forPages_eq hsize, checkOffset_all n⟩

end Kmalloc

theorem PFN_PHYS_toNat (pg : Page) : (PFN_PHYS pg.pfn).toNat = 4096 * pg.pfn.toNat := by
  have hphysical := pg.physical
  rw [PFN_PHYS, PAGE_SHIFT, BitVec.toNat_shiftLeft, Nat.shiftLeft_eq]
  omega

/-- It is the linear relation, for a buffer all of whose pages are found. -/
theorem linear_iff_expected {virt_to_phys : Word → Word} {base : Page} (hfound : ∀ i, i < n → b.Found i)
    (hphys : ∀ i p, b.lookup i = some p → virt_to_phys (b.vbuf + pageOffset i) = PFN_PHYS p.pfn)
    (hbase : b.lookup 0 = some base) (hfits : base.pfn.toNat + n ≤ 2 ^ 52) :
    b.Linear n ↔ ∀ i, i < n → virt_to_phys (b.vbuf + pageOffset i) = virt_to_phys b.vbuf + pageOffset i := by
  have hfirst : virt_to_phys b.vbuf = PFN_PHYS base.pfn := by
    rw [← hphys 0 base hbase, pageOffset, Nat.mul_zero]
    exact congrArg virt_to_phys (BitVec.add_zero _).symm
  have hexpected : ∀ i p, i < n → b.lookup i = some p →
      (virt_to_phys (b.vbuf + pageOffset i) = virt_to_phys b.vbuf + pageOffset i ↔
        p.pfn.toNat = base.pfn.toNat + i) := by
    intro i p hi hp
    have hoffset : (pageOffset i).toNat = 4096 * i := by
      rw [pageOffset, BitVec.toNat_ofNat]
      omega
    rw [hphys i p hp, hfirst, ← BitVec.toNat_inj, BitVec.toNat_add, PFN_PHYS_toNat, PFN_PHYS_toNat, hoffset]
    omega
  constructor
  · intro hlinear i hi
    obtain ⟨p, hp⟩ := (hfound i hi).lookup
    rw [hexpected i p hi hp]
    rcases Nat.eq_zero_or_pos i with rfl | hpos
    · rw [hbase] at hp
      cases hp
      rfl
    · exact hlinear 0 i hpos hi base p hbase hp
  · intro h i j hij hj p q hp hq
    have hpi := (hexpected i p (hij.trans hj) hp).mp (h i (hij.trans hj))
    have hqj := (hexpected j q hj hq).mp (h j hj)
    omega

end Buffer

end Armv8Driver.VmallocBasic

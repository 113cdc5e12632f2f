import Flipper.Binary.Memory
import Mathlib.Order.Interval.Finset.Nat
import Mathlib.Data.Nat.Count

/-! The verification of `utils/fdfu`: every word of the image is compared with the flash,
in the low half only, and of a run of mismatches some are skipped as retries. -/
namespace Flipper.Fdfu
open Binary

def lfCeiling (x y : Nat) : Nat := (x + y - 1) / y

def iflash0PageSize : Nat := 512

def iflash0Addr : BitVec 32 := 0x00400000

def retriesMax : Nat := 4

/-- The bytes of some pages, as `fgetc` hands them out; zeros once the file is at its end. -/
def readPages : (firmware : List Byte) → Nat → List Byte
  | _, 0 => []
  | [], left + 1 => 0 :: readPages [] left
  | byte :: rest, left + 1 => byte :: readPages rest left

def loadPageData (firmware : List Byte) (size : Nat) : List Byte :=
  readPages firmware (lfCeiling size iflash0PageSize * iflash0PageSize)

def wordAt (buffer : List Byte) (i : Nat) : BitVec 32 :=
  BitVec.ofNat 32 (leNat (fun k => buffer.getD (4 * i + k) 0) 4)

structure Verify where
  errors : Nat
  perrors : Nat
  retries : Nat
  deriving DecidableEq

/-- One turn. A mismatch that counts as a retry goes on with the next word, not with the
same one. -/
def verifyWord (s : Verify) (word expected : BitVec 32) : Verify :=
  let matched := word.setWidth 16 = expected.setWidth 16
  if ¬matched ∧ s.retries < retriesMax then
    let s := if s.retries = 0 then { s with perrors := s.perrors + 1, errors := s.errors + 1 }
      else s
    { s with retries := s.retries + 1 }
  else { s with retries := 0, perrors := 0 }

/-- The loop over the first words, with the word `sam_ba_read_word` reads at each. -/
def verifyWords (flash expected : Nat → BitVec 32) : Nat → Verify
  | 0 => ⟨0, 0, 0⟩
  | i + 1 => verifyWord (verifyWords flash expected i) (flash i) (expected i)

def flashAddr (i : Nat) : BitVec 32 := iflash0Addr + BitVec.ofNat 32 (4 * i)

/-- What the loop leaves for a firmware file; `total` has 32 bits. -/
def verify (firmware : List Byte) (flash : BitVec 32 → BitVec 32) : Verify :=
  let pagedata := loadPageData firmware firmware.length
  let total := lfCeiling firmware.length 4 % 2 ^ 32
  verifyWords (fun i => flash (flashAddr i)) (wordAt pagedata) total

/-! The contract. -/

/-- The flash holds another word than the image, which zeros fill up. -/
def Differs (firmware : List Byte) (flash : BitVec 32 → BitVec 32) (i : Nat) : Prop :=
  flash (flashAddr i) ≠ wordAt firmware i

instance (firmware : List Byte) (flash : BitVec 32 → BitVec 32) :
    DecidablePred (Differs firmware flash) :=
  fun _ => inferInstanceAs (Decidable (_ ≠ _))

/-- The loop counts the words that differ, and none only if there are none. -/
def VerifiesExactly (firmware : List Byte) (flash : BitVec 32 → BitVec 32) : Prop :=
  (verify firmware flash).errors = Nat.count (Differs firmware flash)
    (lfCeiling firmware.length 4) ∧
    ((verify firmware flash).errors = 0 → ∀ i < lfCeiling firmware.length 4,
      ¬Differs firmware flash i)

/-- A word that differs does so in its low half, among the words the loop reaches, and not
right after another one. -/
def Noticeable (firmware : List Byte) (flash : BitVec 32 → BitVec 32) : Prop :=
  ∀ i < lfCeiling firmware.length 4, Differs firmware flash i →
    i < lfCeiling firmware.length 4 % 2 ^ 32 ∧
      (flash (flashAddr i)).setWidth 16 ≠ (wordAt firmware i).setWidth 16 ∧
        ∀ j, i = j + 1 → ¬Differs firmware flash j

/-! The page data is the image, filled up. -/

theorem readPages_getD (firmware : List Byte) (count k : Nat) (enough : firmware.length ≤ count) :
    (readPages firmware count).getD k 0 = firmware.getD k 0 := by
  induction count generalizing firmware k with
  | zero =>
    obtain rfl := List.length_eq_zero_iff.mp (Nat.le_zero.mp enough)
    rfl
  | succ count ih =>
    cases firmware with
    | nil =>
      cases k with
      | zero => rfl
      | succ k => simpa [readPages] using ih [] k (by simp)
    | cons byte rest =>
      cases k with
      | zero => rfl
      | succ k => simpa [readPages] using ih rest k (by simpa using enough)

theorem wordAt_pagedata (firmware : List Byte) (i : Nat) :
    wordAt (loadPageData firmware firmware.length) i = wordAt firmware i := by
  have enough : firmware.length ≤ lfCeiling firmware.length iflash0PageSize * iflash0PageSize := by
    unfold lfCeiling iflash0PageSize
    omega
  unfold wordAt loadPageData
  rw [leNat_congr fun k _ => readPages_getD firmware _ (4 * i + k) enough]

/-! The counters over a prefix of the words. -/

/-- A failed comparison is an error only while none is being retried. -/
theorem verifyWord_errors (s : Verify) {word expected : BitVec 32}
    (fails : word.setWidth 16 ≠ expected.setWidth 16) :
    (verifyWord s word expected).errors = if s.retries = 0 then s.errors + 1 else s.errors := by
  by_cases fresh : s.retries = 0
  · simp [verifyWord, fails, fresh, retriesMax]
  · by_cases retried : s.retries < retriesMax <;> simp [verifyWord, fails, fresh, retried]

theorem verifyWord_retries (s : Verify) {word expected : BitVec 32}
    (fails : word.setWidth 16 ≠ expected.setWidth 16) (fresh : s.retries = 0) :
    (verifyWord s word expected).retries = 1 := by
  simp [verifyWord, fails, fresh, retriesMax]

section Loop
variable (flash expected : Nat → BitVec 32)

/-- The comparison of the loop fails. -/
def LowDiffers (i : Nat) : Prop := (flash i).setWidth 16 ≠ (expected i).setWidth 16

instance : DecidablePred (LowDiffers flash expected) := fun _ => inferInstanceAs (Decidable (_ ≠ _))

/-- No two neighbours among the first words fail. -/
def Lonely (n : Nat) : Prop := ∀ i, i + 1 < n → LowDiffers flash expected i →
    ¬LowDiffers flash expected (i + 1)

/-- The counters after the first words. -/
structure Counted (n : Nat) (s : Verify) : Prop where
  lonely : Lonely flash expected n → s.errors = Nat.count (LowDiffers flash expected) n ∧
    (s.retries = 0 ↔ ∀ j, n = j + 1 → ¬LowDiffers flash expected j)
  crowded : ¬Lonely flash expected n → s.errors < Nat.count (LowDiffers flash expected) n

theorem lonely_succ (n : Nat) : Lonely flash expected (n + 1) ↔
    Lonely flash expected n ∧
      (LowDiffers flash expected n → ∀ j, n = j + 1 → ¬LowDiffers flash expected j) := by
  constructor
  · intro lonely
    refine ⟨fun i less => lonely i (by omega), ?_⟩
    rintro fails j rfl before
    exact lonely j (by omega) before fails
  · rintro ⟨lonely, last⟩ i less fails next
    by_cases inside : i + 1 < n
    · exact lonely i inside fails next
    · obtain rfl : n = i + 1 := by omega
      exact last next i rfl fails

/-- A comparison that fails is counted unless it comes right after another. -/
theorem counted_failing {n : Nat} {s : Verify} (counted : Counted flash expected n s)
    (fails : LowDiffers flash expected n) :
    Counted flash expected (n + 1) (verifyWord s (flash n) (expected n)) := by
  have count : Nat.count (LowDiffers flash expected) (n + 1) =
      Nat.count (LowDiffers flash expected) n + 1 := by
    rw [Nat.count_succ, if_pos fails]
  have errors := verifyWord_errors s fails
  constructor
  · intro lonely
    obtain ⟨before, alone⟩ := (lonely_succ flash expected n).mp lonely
    obtain ⟨exact, fresh⟩ := counted.lonely before
    have none := fresh.mpr (alone fails)
    rw [if_pos none] at errors
    refine ⟨by omega, iff_of_false ?_ fun last => last n rfl fails⟩
    rw [verifyWord_retries s fails none]
    exact Nat.one_ne_zero
  · intro crowded
    by_cases before : Lonely flash expected n
    · obtain ⟨exact, fresh⟩ := counted.lonely before
      have retrying : s.retries ≠ 0 := fun none =>
        crowded ((lonely_succ flash expected n).mpr ⟨before, fun _ => fresh.mp none⟩)
      rw [if_neg retrying] at errors
      omega
    · have fewer := counted.crowded before
      split at errors <;> omega

theorem counted_matching {n : Nat} {s : Verify} (counted : Counted flash expected n s)
    (matched : ¬LowDiffers flash expected n) :
    Counted flash expected (n + 1) (verifyWord s (flash n) (expected n)) := by
  have count : Nat.count (LowDiffers flash expected) (n + 1) =
      Nat.count (LowDiffers flash expected) n := by
    rw [Nat.count_succ, if_neg matched, Nat.add_zero]
  have step : verifyWord s (flash n) (expected n) = { s with retries := 0, perrors := 0 } := by
    simp [verifyWord, not_not.mp matched]
  have same : Lonely flash expected (n + 1) ↔ Lonely flash expected n := by
    rw [lonely_succ]
    exact and_iff_left fun wrong => absurd wrong matched
  rw [step]
  constructor
  · intro lonely
    rw [count]
    refine ⟨(counted.lonely (same.mp lonely)).1, iff_of_true rfl ?_⟩
    rintro j next
    cases next
    exact matched
  · intro crowded
    rw [count]
    exact counted.crowded fun lonely => crowded (same.mpr lonely)

theorem counted_words (n : Nat) : Counted flash expected n (verifyWords flash expected n) := by
  induction n with
  | zero =>
    refine ⟨fun _ => ⟨rfl, iff_of_true rfl ?_⟩, fun crowded => absurd ?_ crowded⟩
    · intro j none
      cases none
    · intro i less
      cases less
  | succ n ih =>
    by_cases fails : LowDiffers flash expected n
    · exact counted_failing flash expected ih fails
    · exact counted_matching flash expected ih fails

end Loop

/-! Counting. -/

section Count
variable {p q : Nat → Prop} [DecidablePred p] [DecidablePred q]

/-- A narrower count is as large only if nothing is missing. -/
theorem count_eq_iff (n : Nat) (narrower : ∀ i, p i → q i) :
    Nat.count p n ≤ Nat.count q n ∧ (Nat.count p n = Nat.count q n ↔ ∀ i < n, q i → p i) := by
  induction n with
  | zero => simp
  | succ n ih =>
    obtain ⟨less, same⟩ := ih
    have forall_succ : (∀ i < n + 1, q i → p i) ↔ (∀ i < n, q i → p i) ∧ (q n → p n) :=
      Nat.forall_lt_succ_right
    rw [Nat.count_succ, Nat.count_succ, forall_succ, ← same]
    by_cases first : p n
    · have second := narrower n first
      simp [first, second, less]
    · by_cases second : q n
      · simp only [first, second, if_true, if_false]
        constructor
        · omega
        · constructor
          · omega
          · rintro ⟨_, wrong⟩
            exact absurd (wrong trivial) id
      · simp [first, second, less]

/-- Counting up to a bound is counting what lies below it. -/
theorem count_below (bound more : Nat) :
    Nat.count p bound = Nat.count (fun i => i < bound ∧ p i) (bound + more) := by
  rw [Nat.count_add]
  have above : Nat.count (fun i => bound + i < bound ∧ p (bound + i)) more = 0 := by
    rw [Nat.count_eq_card_filter_range]
    simp
  rw [above, Nat.add_zero, Nat.count_eq_card_filter_range, Nat.count_eq_card_filter_range]
  congr 1
  apply Finset.filter_congr
  intro i inside
  rw [Finset.mem_range] at inside
  simp [inside]

end Count

/-- Of all the words that differ, the loop counts those that fail behind one that does
not; it counts all of them only if there are no others. -/
theorem errors_eq_count_iff (flash expected : Nat → BitVec 32) (differs : Nat → Prop)
    [DecidablePred differs] (implied : ∀ i, LowDiffers flash expected i → differs i)
    {reached total : Nat} (below : reached ≤ total) :
    (verifyWords flash expected reached).errors = Nat.count differs total ↔
      ∀ i < total, differs i → i < reached ∧ LowDiffers flash expected i ∧ ∀ j, i = j + 1 →
      ¬differs j := by
  have counted := counted_words flash expected reached
  have bounded := count_below (p := LowDiffers flash expected) reached (total - reached)
  rw [Nat.add_sub_cancel' below] at bounded
  obtain ⟨fewer, same⟩ := count_eq_iff (p := fun i => i < reached ∧ LowDiffers flash expected i)
    (q := differs)
    total fun i failed => implied i failed.2
  constructor
  · intro exact i inside different
    have lonely : Lonely flash expected reached := by
      by_contra crowded
      have missing := counted.crowded crowded
      omega
    have all := same.mp (by rw [← exact, (counted.lonely lonely).1, bounded])
    obtain ⟨less, fails⟩ := all i inside different
    refine ⟨less, fails, ?_⟩
    rintro j rfl before
    exact lonely j less (all j (by omega) before).2 fails
  · intro noticeable
    have lonely : Lonely flash expected reached := by
      intro i less fails next
      exact (noticeable (i + 1) (by omega) (implied _ next)).2.2 i rfl (implied _ fails)
    rw [(counted.lonely lonely).1, bounded, same]
    intro i inside different
    obtain ⟨less, fails, _⟩ := noticeable i inside different
    exact ⟨less, fails⟩

/-- The count is exact only if every word that differs is one the loop can notice. -/
theorem verify_exact_iff (firmware : List Byte) (flash : BitVec 32 → BitVec 32) :
    VerifiesExactly firmware flash ↔ Noticeable firmware flash := by
  have count := errors_eq_count_iff (fun i => flash (flashAddr i)) (wordAt firmware)
    (Differs firmware flash) (fun i fails same => fails (congrArg (BitVec.setWidth 16) same))
    (Nat.mod_le (lfCeiling firmware.length 4) (2 ^ 32))
  have run : verify firmware flash = verifyWords (fun i => flash (flashAddr i)) (wordAt firmware)
      (lfCeiling firmware.length 4 % 2 ^ 32) := by
    rw [verify, funext (wordAt_pagedata firmware)]
  rw [VerifiesExactly, run, count]
  refine and_iff_left_of_imp fun noticeable none => ?_
  rw [count.mpr noticeable] at none
  exact Nat.count_iff_forall_not.mp none

-- Of two neighbours that differ in the low half, one is counted.
example : (verify [1, 0, 0, 0, 1, 0, 0, 0] fun _ => 0).errors = 1 := by decide

/-- A file of one word over a flash of zeros: nothing is reported. -/
theorem high_half_unnoticed :
    (verify [0, 0, 1, 0] fun _ => 0).errors = 0 ∧ Differs [0, 0, 1, 0] (fun _ => 0) 0 ∧
      ¬VerifiesExactly [0, 0, 1, 0] fun _ => 0 := by
  have errors : (verify [0, 0, 1, 0] fun _ => 0).errors = 0 := by decide
  have differs : Differs [0, 0, 1, 0] (fun _ => 0) 0 := by decide
  exact ⟨errors, differs, fun exact => exact.2 errors 0 (by decide) differs⟩

end Flipper.Fdfu

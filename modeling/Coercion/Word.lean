namespace Coercion

def leastWord : Int := -9223372036854775808

/-- The greatest integer that a word holds. -/
def greatestWord : Int := 9223372036854775807

def fitsWord (n : Int) : Bool :=
  leastWord ≤ n && n ≤ greatestWord

def word? (n : Int) : Option Int :=
  if fitsWord n then some n else none

def clampWord (n : Int) : Int :=
  max leastWord (min greatestWord n)

theorem fitsWord_iff {n : Int} :
    fitsWord n = true ↔ -9223372036854775808 ≤ n ∧ n ≤ 9223372036854775807 := by
  simp only [fitsWord, Bool.and_eq_true, decide_eq_true_eq]
  rfl

theorem word?_eq_some_iff {n m : Int} : word? n = some m ↔ fitsWord n = true ∧ n = m := by
  unfold word?
  split
  · simp_all
  · simp_all

end Coercion

/-!
# Order of texts

Texts are ordered by the code points of their characters, a text before its extensions.
-/

namespace LineWatch

def codePointsLe : List Char → List Char → Bool
  | [], _ => true
  | _ :: _, [] => false
  | a :: as, b :: bs =>
    if a.toNat = b.toNat then codePointsLe as bs else decide (a.toNat < b.toNat)

def textLe (a b : String) : Bool := codePointsLe a.toList b.toList

def sortTexts (texts : List String) : List String := texts.mergeSort textLe

theorem codePointsLe_refl (cs : List Char) : codePointsLe cs cs = true := by
  induction cs with
  | nil => rfl
  | cons c cs ih => simp [codePointsLe, ih]

theorem codePointsLe_total (as bs : List Char) :
    codePointsLe as bs = true ∨ codePointsLe bs as = true := by
  induction as generalizing bs with
  | nil => exact .inl rfl
  | cons a as ih =>
    cases bs with
    | nil => exact .inr rfl
    | cons b bs =>
      by_cases h : a.toNat = b.toNat
      · simpa [codePointsLe, h] using ih bs
      · have h' : ¬b.toNat = a.toNat := fun e => h e.symm
        simp only [codePointsLe, h, h', if_false, decide_eq_true_eq]
        omega

end LineWatch

import OfferBook.Text.CaseTables

/-!
# Lower-case text

Text is lowered one character at a time, by the mapping of single code points and two rules of
their own: a capital I with a dot above becomes two characters, and a capital sigma becomes a
final sigma at the end of a word. The end of a word is a matter of context: some cased character
stands before the sigma and none after it, characters that ignore case being skipped on both
sides. The context is what the walk over the text carries along, the characters before the
current one in reversed order.
-/

namespace OfferBook.Text

/-- The run that holds the code point, searched in ascending order. -/
def findRun? (n : Nat) : List CaseRun → Option CaseRun
  | [] => none
  | r :: rs =>
    if n < r.first then none
    else if n ≤ r.last ∧ (n - r.first) % r.step = 0 then some r
    else findRun? n rs

/-- Whether an ascending list of ranges holds the code point. -/
def inRanges (n : Nat) : List (Nat × Nat) → Bool
  | [] => false
  | (first, last) :: rest => if n < first then false else n ≤ last || inRanges n rest

/-- Whether a neighbour on this side is cased, those that ignore case being skipped. -/
def casedNext (side : List Char) : Bool :=
  match side.dropWhile fun c => inRanges c.toNat caseIgnorableRanges with
  | [] => false
  | c :: _ => inRanges c.toNat casedRanges

/-- The lower-case form of a character between the reversed text before it and the text after. -/
def lowerChar (before : List Char) (c : Char) (after : List Char) : List Char :=
  if c = '\u03a3' then [if casedNext before && !casedNext after then '\u03c2' else '\u03c3']
  else if c = '\u0130' then ['i', '\u0307']
  else match findRun? c.toNat lowerRuns with
    | some r => [Char.ofNat (c.toNat + r.shift).toNat]
    | none => [c]

/-- The lower-case form of the characters that follow the reversed text `before`. -/
def lowerFrom (before : List Char) : List Char → List Char
  | [] => []
  | c :: after => lowerChar before c after ++ lowerFrom (c :: before) after

/-- The text in lower case. -/
def lowercase (text : String) : String := String.ofList (lowerFrom [] text.toList)

end OfferBook.Text

import Trazo.Number
import Trazo.Vocabulary

/-!
Which known word a misspelled one is nearest to.

Two words are compared by their matching blocks: the longest run of characters that both have,
then, again and again, the longest runs to the left and to the right of it. The ratio of two words
is twice the number of matched characters over the number of all characters. In a word of 200
characters or more, a character that makes up more than one in a hundred starts no block; blocks
still grow over it.
-/

namespace Trazo.Similarity

/-! ### The longest block -/

/-- A run of `size` characters that starts at `i` in the first word and at `j` in the second. -/
structure Block where
  i : Nat
  j : Nat
  size : Nat
  deriving DecidableEq, Inhabited

/-- For each place of the second word, the length of the common run that ends there, once the
first word is one character `x` longer. `diagonal` and the list hold the lengths before. -/
def runLengths (skipped : List Char) (x : Char) : Nat → List Char → List Nat → List Nat
  | diagonal, y :: ys, n :: ns =>
    (if x = y && !skipped.contains y then diagonal + 1 else 0) :: runLengths skipped x n ys ns
  | _, _, _ => []

/-- The longer of a block and the runs that end at place `i` of the first word; the block or the
earlier run when lengths are equal. -/
def bestInRow (i j : Nat) (best : Block) : List Nat → Block
  | [] => best
  | n :: ns =>
    let better := if n > best.size then ⟨i + 1 - n, j + 1 - n, n⟩ else best
    bestInRow i (j + 1) better ns

def longestFrom (skipped b : List Char) (i : Nat) (row : List Nat) (best : Block) :
    List Char → Block
  | [] => best
  | x :: xs =>
    let row := runLengths skipped x 0 b row
    longestFrom skipped b (i + 1) row (bestInRow i 0 best row) xs

/-- The first longest common run that holds no skipped character. -/
def longestRun (skipped a b : List Char) : Block :=
  longestFrom skipped b 0 (List.replicate b.length 0) ⟨0, 0, 0⟩ a

def commonLength : List Char → List Char → Nat
  | x :: xs, y :: ys => if x = y then commonLength xs ys + 1 else 0
  | _, _ => 0

/-- The block grown to both sides as far as the words agree. -/
def Block.grow (m : Block) (a b : List Char) : Block :=
  let left := commonLength (a.take m.i).reverse (b.take m.j).reverse
  let right := commonLength (a.drop (m.i + m.size)) (b.drop (m.j + m.size))
  ⟨m.i - left, m.j - left, m.size + left + right⟩

def longestBlock (skipped a b : List Char) : Block := (longestRun skipped a b).grow a b

/-! ### The ratio -/

/-- The number of characters in matching blocks. -/
def matched (skipped a b : List Char) : Nat :=
  let m := longestBlock skipped a b
  if _h : 0 < m.size ∧ m.i < a.length then
    m.size + matched skipped (a.take m.i) (b.take m.j) +
      matched skipped (a.drop (m.i + m.size)) (b.drop (m.j + m.size))
  else 0
termination_by a.length
decreasing_by
  all_goals
    have h : 0 < (longestBlock skipped a b).size ∧ (longestBlock skipped a b).i < a.length := _h
    simp only [List.length_take, List.length_drop]
    omega

/-- Characters that start no block in a long word. -/
def popular (word : List Char) : List Char :=
  if word.length ≥ 200 then
    word.eraseDups.filter fun c => word.count c > word.length / 100 + 1
  else []

/-- The quotient `2 * n / total`, and one when there is nothing to compare. -/
def proportion (n total : Nat) : Binary64 :=
  if total = 0 then .ofInt 1 else .ofRatio false (2 * n) total

def ratio (candidate word : List Char) : Binary64 :=
  proportion (matched (popular word) candidate word) (candidate.length + word.length)

/-! ### Bounds that are quicker to compute -/

/-- The number of characters that two words share, order apart. -/
def shared : List Char → List Char → Nat
  | [], _ => 0
  | c :: cs, word => if word.contains c then shared cs (word.erase c) + 1 else shared cs word

def sharedRatio (candidate word : List Char) : Binary64 :=
  proportion (shared candidate word) (candidate.length + word.length)

def lengthRatio (candidate word : List Char) : Binary64 :=
  proportion (min candidate.length word.length) (candidate.length + word.length)

/-! ### The nearest word -/

/-- Whether a candidate is near enough, the quick bounds tried first. -/
def isNear (cutoff : Binary64) (candidate word : List Char) : Bool :=
  cutoff.le (lengthRatio candidate word) && cutoff.le (sharedRatio candidate word) &&
    cutoff.le (ratio candidate word)

/-- The order of candidates: by ratio, then by their characters. -/
def precedes (a b : Binary64 × String) : Bool :=
  if a.1 = b.1 then a.2 < b.2 else a.1.le b.1

/-- The nearest of the candidates that are near enough. -/
def nearest? (cutoff : Binary64) (word : String) (candidates : List String) : Option String :=
  let scored := (candidates.filter fun c => isNear cutoff c.toList word.toList).map
    fun c => (ratio c.toList word.toList, c)
  (scored.foldl (fun best s => match best with
    | none => some s
    | some b => if precedes b s then some s else some b) none).map Prod.snd

/-- A cutoff that is no proportion. -/
structure CutoffFault where
  cutoff : Number
  deriving DecidableEq

def CutoffFault.message (f : CutoffFault) : String :=
  "cutoff must be in [0.0, 1.0]: " ++ f.cutoff.display

/-- The nearest candidate, unless it is the word itself. -/
def suggestAt (cutoff : Binary64) (word : String) (candidates : List String) : Option String :=
  (nearest? cutoff word candidates).filter (· != word)

def suggestWithin (cutoff : Number) (word : String) (candidates : List String) :
    Except CutoffFault (Option String) :=
  if cutoff.isProportion then .ok (suggestAt cutoff.toBinary64 word candidates)
  else .error ⟨cutoff⟩

/-- Three quarters, the cutoff for words of the vocabulary. -/
def usualCutoff : Binary64 := .ofRatio false 3 4

/-- Three fifths, the cutoff for procedure names. -/
def looseCutoff : Binary64 := .ofRatio false 3 5

/-- The word of the vocabulary that a misspelled one is nearest to. -/
def suggest (word : String) : Option String := suggestAt usualCutoff word Vocabulary.words

end Trazo.Similarity

import MapFeatures.Deflate.Bits
/-!
# Code — prefix codes, as trees

A code is given by the lengths of its words: shorter words come first, and words of one length are in the order of their
symbols.  So in each level of the tree the symbols of that level come before the forks.
-/
namespace MapFeatures.Deflate

inductive Code
  /-- No word begins like this. -/
  | none
  | symbol (s : Nat)
  | fork (zero one : Code)
deriving Repr

namespace Code

/-- The forks above the trees of one level. -/
def pairs : List Code → List Code
  | [] => []
  | [t] => [fork t none]
  | t :: u :: rest => fork t u :: pairs rest

/-- The longest word. -/
def maxLength : Nat := 15

/-- The symbols whose words have a length. -/
def level (lengths : List Nat) (length : Nat) : List Code :=
  (lengths.zipIdx.filter fun e => e.1 = length).map fun e => symbol e.2

/-- The code of the symbols from zero on with these lengths, of which zero means that there is no word. -/
def ofLengths? (lengths : List Nat) : Option Code :=
  match (List.range maxLength).foldr (fun above trees => pairs (level lengths (above + 1) ++ trees)) [] with
  | [] => some none
  | [t] => some t
  | _ => Option.none

/-- The symbol of the word that the next bits are. -/
def next? : Code → Bits → Option (Nat × Bits)
  | none, _ => Option.none
  | symbol s, b => some (s, b)
  | fork zero one, b =>
    match b.next? with
    | Option.none => Option.none
    | some (false, b) => zero.next? b
    | some (true, b) => one.next? b

end Code
end MapFeatures.Deflate

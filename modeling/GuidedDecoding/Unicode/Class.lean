import GuidedDecoding.Unicode.Property
import GuidedDecoding.Unicode.Script

/-!
# Named classes of characters

The classes that a pattern names: `\d`, `\s` and `\w`, which have an ASCII and a Unicode form, the ASCII
classes such as `[:alpha:]`, and the classes of `\p`, which a general category, a script or a property
gives. A name of a class of `\p` is read without regard to case, blanks, hyphens and underscores.
-/

namespace GuidedDecoding.Unicode

/-- The classes `\d`, `\s` and `\w`. -/
inductive ShortClass where
  | digit
  | space
  | word
  deriving DecidableEq, Repr

namespace ShortClass

/-- The characters of a class: for words these are letters, marks, digits, connectors and joiners. -/
def set : ShortClass → CharSet
  | .digit => Category.decimalNumber.set
  | .space => Property.whiteSpace.set
  | .word => Property.alphabetic.set ∪ Property.joinControl.set ∪
      Category.sets (.decimalNumber :: .connectorPunctuation :: Category.marks)

def ascii : ShortClass → CharSet
  | .digit => .ofDisjoint [(0x30, 0x39)]
  | .space => .ofDisjoint [(0x09, 0x0D), (0x20, 0x20)]
  | .word => .ofDisjoint [(0x30, 0x39), (0x41, 0x5A), (0x5F, 0x5F), (0x61, 0x7A)]

end ShortClass

def isBlank (c : Char) : Bool := ShortClass.space.set.contains c.toNat

def isAlphabetic (c : Char) : Bool := Property.alphabetic.set.contains c.toNat

def isNumeric (c : Char) : Bool :=
  (Category.sets [.decimalNumber, .letterNumber, .otherNumber]).contains c.toNat

def asciiClass? (name : String) : Option CharSet :=
  let ranges? : Option (List (Nat × Nat)) := match name with
    | "alnum" => some [(0x30, 0x39), (0x41, 0x5A), (0x61, 0x7A)]
    | "alpha" => some [(0x41, 0x5A), (0x61, 0x7A)]
    | "ascii" => some [(0x00, 0x7F)]
    | "blank" => some [(0x09, 0x09), (0x20, 0x20)]
    | "cntrl" => some [(0x00, 0x1F), (0x7F, 0x7F)]
    | "digit" => some [(0x30, 0x39)]
    | "graph" => some [(0x21, 0x7E)]
    | "lower" => some [(0x61, 0x7A)]
    | "print" => some [(0x20, 0x7E)]
    | "punct" => some [(0x21, 0x2F), (0x3A, 0x40), (0x5B, 0x60), (0x7B, 0x7E)]
    | "space" => some [(0x09, 0x0D), (0x20, 0x20)]
    | "upper" => some [(0x41, 0x5A)]
    | "word" => some [(0x30, 0x39), (0x41, 0x5A), (0x5F, 0x5F), (0x61, 0x7A)]
    | "xdigit" => some [(0x30, 0x39), (0x41, 0x46), (0x61, 0x66)]
    | _ => none
  ranges?.map .ofDisjoint

/-! ### Classes by name -/

/-- A name in small letters without blanks, hyphens, underscores, characters beyond ASCII and a leading
`is`; only the name `isc` keeps it. -/
def looseName (name : String) : String :=
  let plain (cs : List Char) : List Char :=
    (cs.filter fun c => c.toNat < 0x80 && c != ' ' && c != '_' && c != '-').map Char.toLower
  match name.toList with
  | i :: s :: rest =>
    if i.toLower = 'i' ∧ s.toLower = 's' then
      if plain rest = ['c'] then "isc" else String.ofList (plain rest)
    else String.ofList (plain (i :: s :: rest))
  | cs => String.ofList (plain cs)

def categoryClass? (name : String) : Option CharSet :=
  match name with
  | "any" => some .scalars
  | "ascii" => some .ascii
  | "assigned" => some Category.unassigned.set.compl
  | name => (Category.named? name).map Category.sets

/-- The characters of the class that one name gives: of a property, a category or a script. -/
def namedClass? (name : String) : Option CharSet :=
  let name := looseName name
  match Property.named? name with
  | some p => some p.set
  | none => (categoryClass? name).or ((Script.named? name).map Script.set)

/-- The characters for which a property of many values has this value. Such a property is the general category, the
script or the scripts in which a character is used. There are no classes of the age of characters, nor of the
breaks between graphemes, words and sentences: a pattern that names one has no meaning. -/
def valuedClass? (property value : String) : Option CharSet :=
  let value := looseName value
  match looseName property with
  | "gc" | "generalcategory" => categoryClass? value
  | "sc" | "script" => (Script.named? value).map Script.set
  | "scx" | "scriptextensions" => (Script.named? value).map Script.extended
  | _ => none

end GuidedDecoding.Unicode

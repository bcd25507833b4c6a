/-!
Pieces of text. Definition files, conditions and address layouts are all read by cutting lists of
characters at separators, trimming blanks and reading numbers.
-/

namespace ControlStore.Text

/-- The characters with the Unicode property White_Space. -/
def isBlank (c : Char) : Bool :=
  let n := c.toNat
  (9 ≤ n && n ≤ 13) || n == 0x20 || n == 0x85 || n == 0xA0 || n == 0x1680 ||
    (0x2000 ≤ n && n ≤ 0x200A) || n == 0x2028 || n == 0x2029 || n == 0x202F || n == 0x205F ||
    n == 0x3000

/-- The text without the blanks at both ends. -/
def trim (s : List Char) : List Char :=
  ((s.dropWhile isBlank).reverse.dropWhile isBlank).reverse

/-- The pieces between separators. There is always one more piece than there are separators. -/
def pieces {α : Type} (sep : α → Bool) (s : List α) : List (List α) :=
  s.foldr (fun c acc =>
    if sep c then [] :: acc
    else match acc with
      | [] => [[c]]
      | w :: ws => (c :: w) :: ws) [[]]

/-- The pieces between occurrences of one character. -/
def splitOn (c : Char) (s : List Char) : List (List Char) :=
  pieces (· == c) s

/-- The maximal runs of characters that are not blank. -/
def words (s : List Char) : List (List Char) :=
  (pieces isBlank s).filter (fun w => !w.isEmpty)

/-- The text before and after the first separator, if there is one. -/
def cutAt (sep : Char → Bool) (s : List Char) : Option (List Char × List Char) :=
  match s.dropWhile (fun c => !sep c) with
  | [] => none
  | _ :: rest => some (s.takeWhile (fun c => !sep c), rest)

/-- The text before and after the first occurrence of a character. -/
def cut (c : Char) (s : List Char) : Option (List Char × List Char) :=
  cutAt (· == c) s

/-- The lines of a text. A line ends at a line feed; what follows the last one is a line of its own
unless it is empty. -/
def lines {α : Type} (isEnd : α → Bool) (s : List α) : List (List α) :=
  let all := pieces isEnd s
  match all.getLast? with
  | some [] => all.dropLast
  | _ => all

/-- A name is made of ASCII letters, digits and underscores and is not empty. -/
def isName (s : List Char) : Bool :=
  !s.isEmpty && s.all (fun c => c.isAlphanum || c == '_')

/-- Every character is an ASCII digit. -/
def isNumeral (s : List Char) : Bool :=
  s.all Char.isDigit

/-- The value of a digit below the radix. Letters count from ten in either case. -/
def digit? (radix : Nat) (c : Char) : Option Nat :=
  let value? :=
    if '0' ≤ c && c ≤ '9' then some (c.toNat - 48)
    else if 'a' ≤ c && c ≤ 'z' then some (c.toNat - 87)
    else if 'A' ≤ c && c ≤ 'Z' then some (c.toNat - 55)
    else none
  value?.filter (fun d => decide (d < radix))

/-- The number a list of digits stands for, most significant digit first. -/
def digits? (radix : Nat) (s : List Char) : Option Nat :=
  s.foldlM (fun n c => (digit? radix c).map (fun d => n * radix + d)) 0

/-- A number below the limit: one plus sign may lead it and at least one digit must follow. -/
def number? (radix limit : Nat) (s : List Char) : Option Nat :=
  let digits := match s with
    | '+' :: rest => rest
    | _ => s
  if digits.isEmpty then none
  else (digits? radix digits).filter (fun n => decide (n < limit))

/-- The first number that takes more than 32 bits. -/
def limit32 : Nat := 0x100000000

/-- The first number that takes more than 64 bits. -/
def limit64 : Nat := 0x10000000000000000

/-- A decimal number of at most 32 bits. -/
def nat32? (s : List Char) : Option Nat := number? 10 limit32 s

/-- A decimal number of at most 64 bits. -/
def nat64? (s : List Char) : Option Nat := number? 10 limit64 s

/-- Every occurrence of a pattern that is not empty, from left to right, gives way to a text. -/
def replaceAll (pattern text : List Char) (s : List Char) : List Char :=
  match s with
  | [] => []
  | c :: r =>
    if pattern ≠ [] ∧ pattern.isPrefixOf (c :: r) then
      text ++ replaceAll pattern text ((c :: r).drop pattern.length)
    else c :: replaceAll pattern text r
termination_by s.length
decreasing_by
  · rename_i h
    have : 0 < pattern.length := List.length_pos_iff.mpr h.1
    simp only [List.length_drop, List.length_cons]
    omega
  · simp

/-- The pattern stands somewhere in the text. -/
def occurs (pattern : List Char) : List Char → Bool
  | [] => pattern.isEmpty
  | c :: r => pattern.isPrefixOf (c :: r) || occurs pattern r

/-- The text before the last occurrence of a character, and the text from it on. -/
def cutLast (c : Char) (s : List Char) : Option (List Char × List Char) :=
  let after := s.reverse.takeWhile (· != c)
  match s.reverse.dropWhile (· != c) with
  | [] => none
  | _ :: before => some (before.reverse, c :: after.reverse)

/-- The text from which leading characters are dropped until they make up a number of UTF-8
bytes. -/
def dropBytes (n : Nat) : List Char → List Char
  | [] => []
  | c :: r => if n = 0 then c :: r else dropBytes (n - c.utf8Size) r

/-- The same from the right end. -/
def dropBytesRight (n : Nat) (s : List Char) : List Char :=
  (dropBytes n s.reverse).reverse

/-- The digits of a number in a radix, filled up with zeros on the left to a least length. -/
def padded (radix width n : Nat) : List Char :=
  let digits := Nat.toDigits radix n
  List.replicate (width - digits.length) '0' ++ digits

end ControlStore.Text

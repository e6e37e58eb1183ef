namespace InkSyntax

/-!
# Lines of a text in bytes

Programs that show an excerpt of a text ask for the bytes of a line in UTF-8.
-/

/-- A stretch of bytes. -/
structure ByteRange where
  offset : Nat
  length : Nat
  deriving DecidableEq, Repr

/-- The lines of a text, each with the line feed that ends it. -/
def linesWithEnds : List Char → List (List Char)
  | [] => []
  | '\n' :: rest => ['\n'] :: linesWithEnds rest
  | character :: rest =>
      match linesWithEnds rest with
      | [] => [[character]]
      | line :: others => (character :: line) :: others

/-- Nothing of a text is lost in its lines. -/
theorem flatten_linesWithEnds (text : List Char) : (linesWithEnds text).flatten = text := by
  fun_induction linesWithEnds text <;> simp_all

/-- Number of bytes in UTF-8. -/
def byteLength : List Char → Nat
  | [] => 0
  | character :: rest => character.utf8Size + byteLength rest

/-- A line without the line feeds and carriage returns at its end. -/
def withoutEnd (line : List Char) : List Char :=
  (line.reverse.dropWhile fun c => c == '\n' || c == '\r').reverse

/-- The bytes of a line, counted from one, without its end.

Where there is no such line the range is empty, at the end of the text. -/
def lineRange (text : String) (line : Nat) : ByteRange :=
  let lines := linesWithEnds text.toList
  match if line = 0 then none else lines[line - 1]? with
  | some found =>
      ⟨byteLength (lines.take (line - 1)).flatten, byteLength (withoutEnd found)⟩
  | none => ⟨byteLength text.toList, 0⟩

end InkSyntax

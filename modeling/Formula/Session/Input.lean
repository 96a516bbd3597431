import Formula.Text.Blank

/-!
# Lines of input

What a session reads, one item for each time it asks: a line, the end of the input or a failure.
A stream of bytes is split after each line feed; a stretch that is not UTF-8 is a failure of its
own, and reading goes on behind it.
-/

namespace Formula

/-- How a line reader gives up. -/
inductive ReaderFailure where
  | endOfFile
  | interrupted
deriving DecidableEq, Repr

/-- Why reading or writing failed. -/
inductive StreamError where
  | reader (failure : ReaderFailure)
  | io (reason : String)
deriving DecidableEq, Repr

namespace StreamError

def message : StreamError → String
  | reader .endOfFile => "Failed to read input: EOF"
  | reader .interrupted => "Failed to read input: Interrupted"
  | io reason => s!"I/O error: {reason}"

end StreamError

inductive Input where
  | line (text : String)
  | endOfInput
  | failure (error : StreamError)
deriving DecidableEq, Repr

namespace Input

/-- What reading the item gives; no line means that there are none left. -/
def result : Input → Except StreamError (Option String)
  | line text => .ok (some text)
  | endOfInput => .ok none
  | failure error => .error error

def lineFeed : UInt8 := 10

/-- The bytes split after each line feed; the last piece need not end with one. -/
def pieces (bytes : List UInt8) : List (List UInt8) :=
  match h : bytes.dropWhile (· ≠ lineFeed) with
  | [] => if bytes = [] then [] else [bytes]
  | feed :: rest =>
    have : rest.length < bytes.length := by
      have hle : (bytes.dropWhile (· ≠ lineFeed)).length ≤ bytes.length :=
        (List.dropWhile_suffix _).length_le
      rw [h] at hle
      exact hle
    (bytes.takeWhile (· ≠ lineFeed) ++ [feed]) :: pieces rest
termination_by bytes.length

/-- A line without the carriage returns and line feeds at its end. -/
def trimLineEnd (line : String) : String :=
  String.ofList (Text.dropEnd (fun c ↦ c = '\n' || c = '\r') line.toList)

/-- The line that a piece of a stream holds. -/
def ofPiece (piece : List UInt8) : Input :=
  match String.fromUTF8? ⟨piece.toArray⟩ with
  | some text => line (trimLineEnd text)
  | none => failure (.io "stream did not contain valid UTF-8")

def ofBytes (bytes : List UInt8) : List Input :=
  (pieces bytes).map ofPiece

def ofText (text : String) : List Input :=
  ofBytes text.toUTF8.data.toList

end Input

end Formula

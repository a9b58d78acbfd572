-- What follows the last end of a line is a line only if there is something.

namespace NonlinearProgram.Text

def lineEnds : List Char := [
  '\n', '\x0b', '\x0c', '\r', '\x1c', '\x1d', '\x1e', '\u0085', '\u2028', '\u2029']

-- The lines of a text, where `read` holds the beginning of the current one in reverse.
def linesFrom (read : List Char) : List Char → List String
  | [] => if read.isEmpty then [] else [String.ofList read.reverse]
  | '\r' :: '\n' :: rest => String.ofList read.reverse :: linesFrom [] rest
  | c :: rest =>
    if lineEnds.contains c then String.ofList read.reverse :: linesFrom [] rest
    else linesFrom (c :: read) rest

def lines (s : String) : List String := linesFrom [] s.toList

end NonlinearProgram.Text

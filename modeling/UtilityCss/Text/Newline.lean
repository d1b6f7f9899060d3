/-!
# Line ends

Texts are read with a line feed at the end of every line, whether the file had carriage returns there or
both characters.
-/

namespace UtilityCss.Text

def unifyFrom (done : List Char) : List Char → List Char
  | [] => done.reverse
  | '\r' :: '\n' :: rest => unifyFrom ('\n' :: done) rest
  | '\r' :: rest => unifyFrom ('\n' :: done) rest
  | c :: rest => unifyFrom (c :: done) rest

def unifyNewlines (s : String) : String := String.ofList (unifyFrom [] s.toList)

end UtilityCss.Text

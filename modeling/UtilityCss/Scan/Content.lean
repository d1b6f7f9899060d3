import UtilityCss.Scan.Attribute
import UtilityCss.Scan.ClassName
import UtilityCss.Text.Ordered

/-!
# Scanning a text

In markup the values of class attributes are searched, and the literals of expressions in them. In code
every string literal that looks like a class list is searched, and the values of class properties.
-/

namespace UtilityCss

inductive ContentKind
  | markup
  | code
  deriving DecidableEq, Repr

namespace ContentKind

def codeExtension : String := ".cs"

def ofExtension (extension : String) : ContentKind :=
  if extension.map Char.toLower = codeExtension then code else markup

def ofName? (name : String) : Option ContentKind :=
  if Text.beginsWith "." name then some (ofExtension name)
  else if name = "markup" then some markup
  else if name = "code" then some code
  else none

def name : ContentKind → String
  | markup => "markup"
  | code => "code"

end ContentKind

structure Scanner where
  naming : Naming := {}
  ignored : List String := []
  deriving DecidableEq, Repr

namespace Scanner

open Scan

def keeps (scanner : Scanner) (name : String) : Bool :=
  !scanner.ignored.contains name && !isFragment name && isName name &&
    (scanner.naming.permissive || looksPrefixed scanner.naming name)

def extract (scanner : Scanner) (classList : List Char) : List String :=
  ((Text.words classList).map fun word => String.ofList (clean word)).filter scanner.keeps

def fromExpression (scanner : Scanner) (expression : List Char) : List String :=
  (literals expression).flatMap scanner.extract

def fromValue (scanner : Scanner) (value : List Char) : List String :=
  scanner.extract value ++
    if Text.mentions ['@', '('] value then scanner.fromExpression value else []

def fromMarkup (scanner : Scanner) (content : List Char) : List String :=
  (classAttributes.flatMap fun assignment => (assignment.values content).flatMap scanner.fromValue) ++
    (expressions content).flatMap scanner.fromExpression

def looksLikeClasses (scanner : Scanner) (literal : List Char) : Bool :=
  !Text.allBlank literal &&
    (scanner.naming.permissive || looksPrefixed scanner.naming (String.ofList literal))

def fromCode (scanner : Scanner) (content : List Char) : List String :=
  ((literals content).filter scanner.looksLikeClasses).flatMap scanner.extract ++
    (classProperty.values content).flatMap scanner.extract

def found (scanner : Scanner) (content : String) : ContentKind → List String
  | .markup => scanner.fromMarkup content.toList
  | .code => scanner.fromCode content.toList

def scan (scanner : Scanner) (content : String) (kind : ContentKind) : List String :=
  Text.orderedSet (scanner.found content kind)

def ignore (scanner : Scanner) (names : List String) : Scanner :=
  { scanner with ignored := scanner.ignored ++ names }

end Scanner

end UtilityCss

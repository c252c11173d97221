/-
Names: which texts may name an application or a service, and the names derived from them.
-/
import Fleet.Path
import Fleet.Text.Upper

namespace Fleet.Naming

/-- ASCII digits and, as asked, all or only lower-case ASCII letters -/
def isNameChar (lowercaseOnly : Bool) (c : Char) : Bool :=
  c.isDigit || if lowercaseOnly then c.isLower else c.isAlpha

/-- words of name characters, separated by single hyphens -/
def isHyphenated (lowercaseOnly : Bool) (name : String) : Bool :=
  (Path.splitFrom '-' [] name.toList).all fun word =>
    !word.isEmpty && word.all (isNameChar lowercaseOnly)

/-- what the variables about a component start with: upper case, hyphens as underscores -/
def variableStem (name : String) : String :=
  String.ofList ((Text.upper name.toList).map fun c => if c = '-' then '_' else c)

/-- the network and image stem of an application directory: the ASCII letters and digits of its
base name, in lower case -/
def projectName (dir : String) : String :=
  match Path.baseName? dir with
  | none => ""
  | some name => String.ofList ((name.toList.filter Char.isAlphanum).map Char.toLower)

end Fleet.Naming

/-! Letter case of ASCII text. Characters outside ASCII are left as they are. -/

set_option autoImplicit false

namespace Pinout.Text

/-- Change the ASCII small letters to capitals. -/
def upper (text : String) : String :=
  String.ofList (text.toList.map Char.toUpper)

/-- Change the ASCII capitals to small letters. -/
def lower (text : String) : String :=
  String.ofList (text.toList.map Char.toLower)

@[simp] theorem toList_upper (text : String) :
    (upper text).toList = text.toList.map Char.toUpper := by
  simp [upper]

@[simp] theorem toList_lower (text : String) :
    (lower text).toList = text.toList.map Char.toLower := by
  simp [lower]

/-- The characters of names: ASCII letters, digits and the underscore. -/
def isNameChar (char : Char) : Bool :=
  char.isAlphanum || char == '_'

end Pinout.Text

import CrossNative.Bridge.JsText

/-!
# The languages a module may be written in
-/

namespace CrossNative

set_option autoImplicit false

inductive LanguageId
  | rust | go | zig | assemblyscript | c | cpp
  deriving DecidableEq

inductive SupportLevel
  | stable | experimental | planned

namespace LanguageId

def id : LanguageId → String
  | rust => "rust" | go => "go" | zig => "zig" | assemblyscript => "assemblyscript" | c => "c"
  | cpp => "cpp"

def support : LanguageId → SupportLevel
  | rust => .stable
  | go | zig | c | cpp => .experimental
  | assemblyscript => .planned

end LanguageId

def languages : List LanguageId := [.rust, .go, .zig, .assemblyscript, .c, .cpp]

def isUsable : SupportLevel → Bool
  | .stable | .experimental => true
  | .planned => false

def getLanguage (id : String) : Option LanguageId :=
  languages.find? fun language => language.id.toList = (Bridge.trim id.toList).map Char.toLower

inductive LanguageError
  | unsupported (requested : String)
  | notReady (language : LanguageId)

def requireUsableLanguage (id : String) : Except LanguageError LanguageId :=
  match getLanguage id with
  | none => .error (.unsupported id)
  | some language => if isUsable language.support then .ok language else .error (.notReady language)

end CrossNative

import FormLang.Builtin.Standard
import FormLang.Library.Class

set_option autoImplicit false

/-! # The builtin libraries -/

namespace FormLang

open LibraryClass (derived own)

/-- The base of all libraries, without any function. -/
def baseLibrary : LibraryClass := derived "Library" "library" []

/-- Arithmetic. -/
def mathLibrary : LibraryClass :=
  derived "MathLibrary" "math" (own "MathLibrary" Arithmetic.functions)

/-- Functions on lists. -/
def listLibrary : LibraryClass :=
  derived "ListLibrary" "list" (own "ListLibrary" Lists.functions)

/-- Functions on text. -/
def stringLibrary : LibraryClass :=
  derived "StringLibrary" "string" (own "StringLibrary" Texts.functions)

/-- All of these and the general functions. -/
def standardLibrary : LibraryClass :=
  { derived "StandardLibrary" "standard"
      (own "StandardLibrary" Standard.general ++ mathLibrary.members ++ listLibrary.members ++
        stringLibrary.members) with
    remark := some "Every builtin function in one library, plus a few general helpers." }

/-- The libraries that are there from the start. -/
def builtinLibraries : List LibraryClass :=
  [mathLibrary, listLibrary, stringLibrary, standardLibrary]

end FormLang

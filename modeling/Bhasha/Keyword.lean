namespace Bhasha

/-!
# Reserved words

Every reserved word has a Bengali spelling and an English one.  Three of them
name the type of a declared variable, and three are reserved without being used
by any statement.
-/

/-- What a reserved word stands for, whichever way it is spelled. -/
inductive Keyword where
  | print
  | integer
  | float
  | string
  | conditional
  | alternative
  | loop
  | function
  | result
  | var
  deriving Repr, DecidableEq

namespace Keyword

/-- Every spelling in its order: first the Bengali ones, then the English ones. -/
def spellings : List (String × Keyword) :=
  [("লিখো", print),
   ("পূর্ণসংখ্যা", integer),
   ("ভগ্নাংশ", float),
   ("বাক্য", string),
   ("যদি", conditional),
   ("নতুবা", alternative),
   ("যতক্ষণ", loop),
   ("কাজ", function),
   ("ফেরত", result),
   ("চলক", var),
   ("print", print),
   ("int", integer),
   ("float", float),
   ("string", string),
   ("if", conditional),
   ("else", alternative),
   ("while", loop),
   ("function", function),
   ("return", result),
   ("var", var)]

/-- The reserved word with a given spelling, if there is one. -/
def ofWord? (word : String) : Option Keyword :=
  (spellings.find? fun entry => entry.1 == word).map Prod.snd

/-- The Bengali spelling, which is the first of a word. -/
def bengali (keyword : Keyword) : String :=
  match spellings.find? fun entry => entry.2 == keyword with
  | some (word, _) => word
  | none => ""

/-- The English spelling, which is the last of a word. -/
def english (keyword : Keyword) : String :=
  match spellings.reverse.find? fun entry => entry.2 == keyword with
  | some (word, _) => word
  | none => ""

/-- The name of a reserved word in listings of tokens. -/
def name : Keyword → String
  | print => "Print"
  | integer => "Integer"
  | float => "Float"
  | string => "String"
  | conditional => "If"
  | alternative => "Else"
  | loop => "While"
  | function => "Function"
  | result => "Return"
  | var => "Var"

/-- Every reserved word once, in the order of the spellings. -/
def all : List Keyword :=
  [print, integer, float, string, conditional, alternative, loop, function, result, var]

/-- The reserved word with a given name, if there is one. -/
def ofName? (text : String) : Option Keyword :=
  all.find? fun keyword => keyword.name == text

/-- A word that no statement uses. -/
def isReserved : Keyword → Bool
  | function | result | var => true
  | _ => false

/-- A word that names the type of a declared variable. -/
def isType : Keyword → Bool
  | integer | float | string => true
  | _ => false

/-- Both spellings of a word are read back as that word. -/
theorem ofWord?_spelling (keyword : Keyword) :
    ofWord? keyword.bengali = some keyword ∧ ofWord? keyword.english = some keyword := by
  cases keyword <;> decide +kernel

end Keyword

end Bhasha

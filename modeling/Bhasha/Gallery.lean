namespace Bhasha

/-!
# Example programs

The bundled programs in the order in which a learner meets them, each with the
lines that it prints.
-/

/-- A bundled program. -/
structure Example where
  slug : String
  title : String
  source : String
  expectedOutput : List String
  deriving Repr, DecidableEq

namespace Gallery

/-- Lines joined by line feeds, without one at the end. -/
def joinLines (lines : List String) : String := String.intercalate "\n" lines

/-- Prints two fixed lines. -/
def helloWorld : Example where
  slug := "hello-world"
  title := "হ্যালো বিশ্ব (Hello World)"
  source := joinLines
    ["// প্রথম প্রোগ্রাম",
     "লিখো(\"হ্যালো বিশ্ব\");",
     "লিখো(\"বজ্র কম্পাইলারে স্বাগতম!\");"]
  expectedOutput :=
    ["হ্যালো বিশ্ব", "বজ্র কম্পাইলারে স্বাগতম!"]

/-- Adds two numbers. -/
def addition : Example where
  slug := "addition"
  title := "যোগফল (Addition)"
  source := joinLines
    ["// দুটি সংখ্যার যোগফল",
     "পূর্ণসংখ্যা a = 10;",
     "পূর্ণসংখ্যা b = 20;",
     "পূর্ণসংখ্যা sum = a + b;",
     "",
     "লিখো(\"যোগফল:\");",
     "লিখো(sum);"]
  expectedOutput :=
    ["যোগফল:", "30"]

/-- Chooses between two lines by a comparison. -/
def ifElse : Example where
  slug := "if-else"
  title := "যদি-নতুবা (If-Else)"
  source := joinLines
    ["পূর্ণসংখ্যা number = 7;",
     "",
     "যদি (number > 5) \x7b",
     "    লিখো(\"সংখ্যাটি ৫ এর চেয়ে বড়\");",
     "\x7d নতুবা \x7b",
     "    লিখো(\"সংখ্যাটি ৫ বা তার ছোট\");",
     "\x7d"]
  expectedOutput :=
    ["সংখ্যাটি ৫ এর চেয়ে বড়"]

/-- Counts from one to five. -/
def whileLoop : Example where
  slug := "while-loop"
  title := "লুপ (While Loop)"
  source := joinLines
    ["// ১ থেকে ৫ পর্যন্ত প্রিন্ট করা",
     "পূর্ণসংখ্যা i = 1;",
     "",
     "যতক্ষণ (i <= 5) \x7b",
     "    লিখো(\"লুপ চলছে...\");",
     "    লিখো(i);",
     "    i = i + 1;",
     "\x7d",
     "লিখো(\"সমাপ্ত!\");"]
  expectedOutput :=
    ["লুপ চলছে...", "1",
     "লুপ চলছে...", "2",
     "লুপ চলছে...", "3",
     "লুপ চলছে...", "4",
     "লুপ চলছে...", "5",
     "সমাপ্ত!"]

/-- Prints the first ten Fibonacci numbers. -/
def fibonacci : Example where
  slug := "fibonacci"
  title := "ফিবোনাচ্চি (Fibonacci)"
  source := joinLines
    ["// ফিবোনাচ্চি সিরিজ",
     "পূর্ণসংখ্যা n = 10;",
     "পূর্ণসংখ্যা t1 = 0;",
     "পূর্ণসংখ্যা t2 = 1;",
     "পূর্ণসংখ্যা nextTerm = t1 + t2;",
     "",
     "লিখো(t1);",
     "লিখো(t2);",
     "",
     "পূর্ণসংখ্যা i = 3;",
     "যতক্ষণ (i <= n) \x7b",
     "    লিখো(nextTerm);",
     "    t1 = t2;",
     "    t2 = nextTerm;",
     "    nextTerm = t1 + t2;",
     "    i = i + 1;",
     "\x7d"]
  expectedOutput :=
    ["0", "1", "1", "2", "3", "5", "8", "13", "21", "34"]

/-- Every bundled program, in order. -/
def examples : List Example := [helloWorld, addition, ifElse, whileLoop, fibonacci]

/-- The slugs of the bundled programs, in order. -/
def slugs : List String := examples.map Example.slug

/-- The bundled program with a given slug, if there is one. -/
def find? (slug : String) : Option Example :=
  examples.find? fun entry => entry.slug == slug

end Gallery

end Bhasha

import Bhasha.Json.Read
import Bhasha.Proofs.Json.Scalar

namespace Bhasha.Json

/-!
# Values read back from their compact text

`compactText` gives the characters of a value that is written on one line, and
`readFrom` reads characters from a place one lexeme at a time.  A value without
numbers that have a point or an exponent, whose whole numbers are below `2 ^ 64`
and which is not too deep, is read back from its text, `Fits.readsBack`.
-/

/-- The characters of a text in quotes. -/
def quotedText (text : String) : List Char :=
  '"' :: (text.toList.flatMap escape ++ ['"'])

mutual

/-- The characters of a value on one line. -/
def compactText : Json → List Char
  | .null => ['n', 'u', 'l', 'l']
  | .bool value => if value then ['t', 'r', 'u', 'e'] else ['f', 'a', 'l', 's', 'e']
  | .integer value => integerText value
  | .number value => (NumberStyle.json.write value).toList
  | .string value => quotedText value
  | .list items => '[' :: (itemsText true items ++ [']'])
  | .object members => '\x7b' :: (membersText true members ++ ['\x7d'])

/-- The characters of the items of a list, each after a comma except the first. -/
def itemsText (isFirst : Bool) : List Json → List Char
  | [] => []
  | item :: items =>
      (if isFirst then [] else [',']) ++ (compactText item ++ itemsText false items)

/-- The characters of the members of an object, each after a comma except the first. -/
def membersText (isFirst : Bool) : List (String × Json) → List Char
  | [] => []
  | (name, value) :: members =>
      (if isFirst then [] else [',']) ++
        (quotedText name ++ ':' :: (compactText value ++ membersText false members))

end

theorem toList_quoteTo (out text : String) :
    (quoteTo out text).toList = out.toList ++ quotedText text := by
  have pushed (form : List Char) (out : String) :
      (form.foldl String.push out).toList = out.toList ++ form := by
    induction form generalizing out with
    | nil =>
        simp
    | cons c form inductionHypothesis =>
        simp [inductionHypothesis]
  have escaped (text : List Char) (out : String) :
      (text.foldl (fun out c => (escape c).foldl String.push out) out).toList =
        out.toList ++ text.flatMap escape := by
    induction text generalizing out with
    | nil =>
        simp
    | cons c text inductionHypothesis =>
        rw [List.foldl_cons, inductionHypothesis, pushed, List.flatMap_cons, List.append_assoc]
  simp [quoteTo, quotedText, escaped]

mutual

/-- A value is written after what is already written. -/
theorem toList_compactTo (out : String) :
    ∀ value : Json, (compactTo out value).toList = out.toList ++ compactText value
  | .null => by
      simp [compactTo, compactText]
  | .bool value => by
      cases value <;> simp [compactTo, compactText]
  | .integer value => by
      simp only [compactTo, compactText, String.toList_append, toList_toString]
  | .number value => by
      simp only [compactTo, compactText, String.toList_append]
  | .string value => by
      simp only [compactTo, compactText, toList_quoteTo]
  | .list items => by
      simp [compactTo, compactText, toList_compactItemsTo]
  | .object members => by
      simp [compactTo, compactText, toList_compactMembersTo]

theorem toList_compactItemsTo (out : String) (isFirst : Bool) :
    ∀ items : List Json,
      (compactItemsTo out isFirst items).toList = out.toList ++ itemsText isFirst items
  | [] => by
      simp [compactItemsTo, itemsText]
  | item :: items => by
      cases isFirst <;>
        simp [compactItemsTo, itemsText, toList_compactTo _ item, toList_compactItemsTo _ _ items]

theorem toList_compactMembersTo (out : String) (isFirst : Bool) :
    ∀ members : List (String × Json),
      (compactMembersTo out isFirst members).toList = out.toList ++ membersText isFirst members
  | [] => by
      simp [compactMembersTo, membersText]
  | (name, value) :: members => by
      cases isFirst <;>
        simp [compactMembersTo, membersText, toList_quoteTo, toList_compactTo _ value,
          toList_compactMembersTo _ _ members]

end

/-- The characters of a value on one line. -/
theorem toList_compact (value : Json) : value.compact.toList = compactText value := by
  simp [compact, toList_compactTo]

/-- A character that is no blank starts a lexeme. -/
theorem lexemesFrom?_cons
    {c : Char}
    (visible : Lexeme.isBlank c = false)
    (found : Array Lexeme)
    (text : List Char) :
    lexemesFrom? found (c :: text) =
      (Lexeme.first? c text).bind fun (lexeme, rest) => lexemesFrom? (found.push lexeme) rest := by
  rw [lexemesFrom?, if_neg (by simp [visible])]
  split
  case h_1 none =>
    rw [none, Option.bind_none]
  case h_2 lexeme rest cut =>
    rw [cut, Option.bind_some]

/-- Lexemes that were found before stand in front. -/
theorem lexemesFrom?_append (before found : Array Lexeme) (text : List Char) :
    lexemesFrom? (before ++ found) text = (lexemesFrom? found text).map (before ++ ·) := by
  fun_induction lexemesFrom? found text with
  | case1 found =>
      simp [lexemesFrom?]
  | case2 found c text blank inductionHypothesis =>
      rw [lexemesFrom?, if_pos blank, inductionHypothesis]
  | case3 found c text visible none =>
      rw [lexemesFrom?_cons (by simpa using visible), none]
      rfl
  | case4 found c text visible lexeme rest cut inductionHypothesis =>
      rw [lexemesFrom?_cons (by simpa using visible), cut, ← inductionHypothesis,
        ← Array.push_append]
      rfl

/-- The place that the lexemes of a text lead to. -/
def readFrom (place : Place) (text : List Char) : Option Place :=
  (lexemesFrom? #[] text).bind fun lexemes => place.steps? lexemes.toList

theorem read?_eq (text : String) :
    read? text = (readFrom ⟨[], .value⟩ text.toList).bind Place.result? := by
  simp only [read?, readFrom, Option.bind_assoc]
  rfl

theorem readFrom_nil (place : Place) : readFrom place [] = some place := by
  simp [readFrom, lexemesFrom?, Place.steps?]

/-- A lexeme takes its step before those that follow. -/
theorem readFrom_cons
    {place next : Place} {c : Char} {text rest : List Char} {lexeme : Lexeme}
    (visible : Lexeme.isBlank c = false)
    (cut : Lexeme.first? c text = some (lexeme, rest))
    (stepped : place.step? lexeme = some next) :
    readFrom place (c :: text) = readFrom next rest := by
  have whole : lexemesFrom? #[] (c :: text) =
      (lexemesFrom? #[] rest).map (#[lexeme] ++ ·) := by
    rw [lexemesFrom?_cons visible, cut, ← lexemesFrom?_append]
    rfl
  rw [readFrom, whole, readFrom, Option.bind_map]
  congr 1
  funext lexemes
  simp [Place.steps?, stepped]

/-- A quoted text is one lexeme. -/
theorem readFrom_quotedText
    {place next : Place} {text : String}
    (stepped : place.step? (.quoted text) = some next)
    (rest : List Char) :
    readFrom place (quotedText text ++ rest) = readFrom next rest := by
  have body := Lexeme.textBody?_flatMap_escape [] text.toList rest
  have cut : Lexeme.first? '"' (text.toList.flatMap escape ++ '"' :: rest) =
      some (.quoted text, rest) := by
    simp [Lexeme.first?, body]
  rw [quotedText, List.cons_append, List.append_assoc, List.singleton_append]
  exact readFrom_cons rfl cut stepped

/-- A minus sign or a digit starts a number. -/
theorem Lexeme.first?_number
    {c : Char}
    (starts : c = '-' ∨ Reading.isDigit c = true)
    (text : List Char) :
    isBlank c = false ∧
      first? c text = (number? (c :: text)).map fun (value, after) => (scalar value, after) := by
  have other (mark : Char) (noMinus : mark ≠ '-') (noDigit : Reading.isDigit mark = false) :
      c ≠ mark := by
    rcases starts with rfl | digit
    · exact noMinus.symm
    · exact ne_of_class digit noDigit
  constructor
  · simp [isBlank, other ' ' (by decide) (by decide), other '\t' (by decide) (by decide),
      other '\n' (by decide) (by decide), other '\r' (by decide) (by decide)]
  · unfold first?
    split
    case h_11 => rfl
    all_goals exact absurd rfl (other _ (by decide) (by decide))

/-- A whole number starts with a minus sign or with a digit. -/
theorem exists_integerText (value : Int) :
    ∃ c text, integerText value = c :: text ∧ (c = '-' ∨ Reading.isDigit c = true) := by
  unfold integerText
  split
  · exact ⟨'-', _, rfl, .inl rfl⟩
  · cases digits : NumberStyle.decimalDigits value.natAbs with
    | nil =>
        exact absurd digits (NumberStyle.decimalDigits_ne_nil _)
    | cons c text =>
        have all := NumberStyle.all_decimalDigits value.natAbs
        rw [digits, List.all_cons, Bool.and_eq_true] at all
        exact ⟨c, text, rfl, .inr all.1⟩

/-- A whole number that nothing goes on with is one lexeme. -/
theorem readFrom_integerText
    {place next : Place} {value : Int} {rest : List Char}
    (stepped : place.step? (.scalar (.integer value)) = some next)
    (small : value.natAbs < 2 ^ 64)
    (ahead : NotAhead Numeral.goesOn rest) :
    readFrom place (integerText value ++ rest) = readFrom next rest := by
  have number := Lexeme.number?_integerText small ahead
  obtain ⟨c, text, written, starts⟩ := exists_integerText value
  obtain ⟨visible, cut⟩ := Lexeme.first?_number starts (text ++ rest)
  rw [written, List.cons_append] at number ⊢
  rw [number] at cut
  exact readFrom_cons visible cut stepped

/-- Nothing goes on with a number after a character that does not. -/
theorem notAhead_goesOn_cons
    {c : Char}
    (refused : Numeral.goesOn c = false)
    (rest : List Char) :
    NotAhead Numeral.goesOn (c :: rest) := by
  rintro first more ⟨⟩
  exact refused

theorem notAhead_itemsText (items : List Json) (rest : List Char) :
    NotAhead Numeral.goesOn (itemsText false items ++ ']' :: rest) := by
  cases items <;> exact notAhead_goesOn_cons rfl _

theorem notAhead_membersText (members : List (String × Json)) (rest : List Char) :
    NotAhead Numeral.goesOn (membersText false members ++ '\x7d' :: rest) := by
  cases members <;> exact notAhead_goesOn_cons rfl _

/--
Values that are read back from their compact text with some room.

The room bounds how deep lists and objects go; numbers with a point or an exponent
are left out, and whole numbers are below `2 ^ 64`.
-/
inductive Fits : Nat → Json → Prop
  | null {room : Nat} : Fits room .null
  | bool {room : Nat} {value : Bool} : Fits room (.bool value)
  | integer {room : Nat} {value : Int} (small : value.natAbs < 2 ^ 64) : Fits room (.integer value)
  | string {room : Nat} {value : String} : Fits room (.string value)
  | list
      {room : Nat} {items : List Json}
      (each : ∀ item ∈ items, Fits room item) :
      Fits (room + 1) (.list items)
  | object
      {room : Nat} {members : List (String × Json)}
      (each : ∀ entry ∈ members, Fits room entry.2) :
      Fits (room + 1) (.object members)

/-- A value may start at a place. -/
def Expecting.IsStart (expecting : Expecting) : Prop :=
  expecting = .value ∨ expecting = .itemOrClose

/-- A value is complete after its compact text, wherever there is room for it. -/
def ReadsBack (room : Nat) (value : Json) : Prop :=
  ∀ (opened : List Open) (expecting : Expecting) (rest : List Char),
    opened.length + room ≤ deepest → expecting.IsStart → NotAhead Numeral.goesOn rest →
      readFrom ⟨opened, expecting⟩ (compactText value ++ rest) =
        readFrom (.complete opened value) rest

/-- Where a value may start, it starts with any lexeme but the end of a list. -/
theorem Place.step?_of_isStart
    {expecting : Expecting}
    (starts : expecting.IsStart)
    (opened : List Open)
    (lexeme : Lexeme)
    (noClose : lexeme ≠ .closeList) :
    step? ⟨opened, expecting⟩ lexeme = startValue? opened lexeme := by
  rcases starts with rfl | rfl
  · rfl
  · cases lexeme with
    | closeList =>
        exact absurd rfl noClose
    | _ =>
        rfl

/-- Items are read back after the first, up to the end of their list. -/
theorem readFrom_itemsText
    {room : Nat} {opened : List Open} {items : List Json}
    (each : ∀ item ∈ items, ReadsBack room item)
    (enough : opened.length + (room + 1) ≤ deepest)
    (done : List Json)
    (first : Json)
    (rest : List Char) :
    readFrom (.complete (.items done :: opened) first) (itemsText false items ++ ']' :: rest) =
      readFrom (.complete opened (.list ((first :: done).reverse ++ items))) rest := by
  induction items generalizing done first with
  | nil =>
      rw [List.append_nil]
      exact readFrom_cons rfl rfl rfl
  | cons item items inductionHypothesis =>
      rw [List.forall_mem_cons] at each
      have deep : (Open.items (first :: done) :: opened).length + room ≤ deepest := by
        rw [List.length_cons]
        omega
      calc readFrom (.complete (.items done :: opened) first)
            (itemsText false (item :: items) ++ ']' :: rest)
        _ = readFrom ⟨.items (first :: done) :: opened, .value⟩
              (compactText item ++ (itemsText false items ++ ']' :: rest)) := by
            rw [itemsText, if_neg Bool.false_ne_true, List.append_assoc, List.append_assoc]
            exact readFrom_cons rfl rfl rfl
        _ = readFrom (.complete (.items (first :: done) :: opened) item)
              (itemsText false items ++ ']' :: rest) :=
            each.1 _ _ _ deep (.inl rfl) (notAhead_itemsText items rest)
        _ = readFrom (.complete opened (.list ((item :: first :: done).reverse ++ items))) rest :=
            inductionHypothesis each.2 (first :: done) item
        _ = readFrom
              (.complete opened (.list ((first :: done).reverse ++ item :: items))) rest := by
            rw [List.reverse_cons, List.append_assoc, List.singleton_append]

/-- The value of a member is read back after its name. -/
theorem readFrom_member
    {room : Nat} {opened : List Open} {value : Json} {rest : List Char}
    (readsBack : ReadsBack room value)
    (enough : opened.length + (room + 1) ≤ deepest)
    (ahead : NotAhead Numeral.goesOn rest)
    (done : List (String × Json))
    (name : String) :
    readFrom ⟨opened, .colon done name⟩ (':' :: (compactText value ++ rest)) =
      readFrom (.complete (.members done name :: opened) value) rest := by
  have deep : (Open.members done name :: opened).length + room ≤ deepest := by
    rw [List.length_cons]
    omega
  rw [← readsBack _ .value _ deep (.inl rfl) ahead]
  exact readFrom_cons rfl rfl rfl

/-- Members are read back after the first, up to the end of their object. -/
theorem readFrom_membersText
    {room : Nat} {opened : List Open} {members : List (String × Json)}
    (each : ∀ entry ∈ members, ReadsBack room entry.2)
    (enough : opened.length + (room + 1) ≤ deepest)
    (done : List (String × Json))
    (name : String)
    (value : Json)
    (rest : List Char) :
    readFrom (.complete (.members done name :: opened) value)
        (membersText false members ++ '\x7d' :: rest) =
      readFrom (.complete opened (.object (((name, value) :: done).reverse ++ members))) rest := by
  induction members generalizing done name value with
  | nil =>
      rw [List.append_nil]
      exact readFrom_cons rfl rfl rfl
  | cons entry members inductionHypothesis =>
      obtain ⟨nextName, next⟩ := entry
      rw [List.forall_mem_cons] at each
      have comma (text : List Char) :
          readFrom (.complete (.members done name :: opened) value) (',' :: text) =
            readFrom ⟨opened, .name ((name, value) :: done)⟩ text :=
        readFrom_cons rfl rfl rfl
      rw [membersText, if_neg Bool.false_ne_true]
      simp only [List.append_assoc, List.cons_append, List.nil_append]
      rw [comma, readFrom_quotedText rfl,
        readFrom_member each.1 enough (notAhead_membersText members rest),
        inductionHypothesis each.2]
      simp only [List.reverse_cons, List.append_assoc, List.cons_append, List.nil_append]

/-- A list is read back if its items are, with one more place in the room. -/
theorem readsBack_list
    {room : Nat} {items : List Json}
    (each : ∀ item ∈ items, ReadsBack room item) :
    ReadsBack (room + 1) (.list items) := by
  intro opened expecting rest enough starts ahead
  have openList (text : List Char) : readFrom ⟨opened, expecting⟩ ('[' :: text) =
      readFrom ⟨.items [] :: opened, .itemOrClose⟩ text :=
    readFrom_cons rfl rfl
      ((Place.step?_of_isStart starts opened .openList nofun).trans (if_pos (by omega)))
  rw [compactText, List.cons_append, List.append_assoc, List.singleton_append, openList]
  cases items with
  | nil =>
      exact readFrom_cons rfl rfl rfl
  | cons item items =>
      rw [List.forall_mem_cons] at each
      have deep : (Open.items [] :: opened).length + room ≤ deepest := by
        rw [List.length_cons]
        omega
      rw [itemsText, if_pos rfl, List.nil_append, List.append_assoc,
        each.1 _ .itemOrClose _ deep (.inr rfl) (notAhead_itemsText items rest),
        readFrom_itemsText each.2 enough]
      rfl

/-- An object is read back if the values of its members are, with one more place in the room. -/
theorem readsBack_object
    {room : Nat} {members : List (String × Json)}
    (each : ∀ entry ∈ members, ReadsBack room entry.2) :
    ReadsBack (room + 1) (.object members) := by
  intro opened expecting rest enough starts ahead
  have openObject (text : List Char) : readFrom ⟨opened, expecting⟩ ('\x7b' :: text) =
      readFrom ⟨opened, .nameOrClose⟩ text :=
    readFrom_cons rfl rfl
      ((Place.step?_of_isStart starts opened .openObject nofun).trans (if_pos (by omega)))
  rw [compactText, List.cons_append, List.append_assoc, List.singleton_append, openObject]
  cases members with
  | nil =>
      exact readFrom_cons rfl rfl rfl
  | cons entry members =>
      obtain ⟨name, value⟩ := entry
      rw [List.forall_mem_cons] at each
      rw [membersText, if_pos rfl, List.nil_append, List.append_assoc, List.cons_append,
        List.append_assoc, readFrom_quotedText rfl,
        readFrom_member each.1 enough (notAhead_membersText members rest),
        readFrom_membersText each.2 enough]
      rfl

/-- A value that fits is read back from its compact text. -/
theorem Fits.readsBack
    {room : Nat} {value : Json}
    (fits : Fits room value) :
    ReadsBack room value := by
  induction fits with
  | null =>
      intro opened expecting rest enough starts ahead
      rw [compactText]
      exact readFrom_cons rfl rfl (Place.step?_of_isStart starts opened (.scalar .null) nofun)
  | @bool room value =>
      intro opened expecting rest enough starts ahead
      rw [compactText]
      cases value <;>
        exact readFrom_cons rfl rfl
          (Place.step?_of_isStart starts opened (.scalar (.bool _)) nofun)
  | integer small =>
      intro opened expecting rest enough starts ahead
      rw [compactText]
      exact readFrom_integerText
        (Place.step?_of_isStart starts opened (.scalar (.integer _)) nofun) small ahead
  | string =>
      intro opened expecting rest enough starts ahead
      rw [compactText]
      exact readFrom_quotedText (Place.step?_of_isStart starts opened (.quoted _) nofun) rest
  | list each readsBack =>
      exact readsBack_list readsBack
  | object each readsBack =>
      exact readsBack_object readsBack

/-- A value that fits is the value of its compact text. -/
theorem read?_compact
    {value : Json}
    (fits : Fits deepest value) :
    read? value.compact = some value := by
  have whole := fits.readsBack [] .value [] (Nat.le_of_eq (Nat.zero_add _)) (.inl rfl) nofun
  rw [List.append_nil] at whole
  rw [read?_eq, toList_compact, whole, readFrom_nil]
  rfl

end Bhasha.Json

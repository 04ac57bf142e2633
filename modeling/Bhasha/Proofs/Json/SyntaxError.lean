import Bhasha.Proofs.Json.Compact
import Bhasha.Syntax.Error

namespace Bhasha

/-!
# Syntax errors read back from JSON

What is read of an object depends on nothing but the values of the members with
the names of an error: `SyntaxError.Describes` says which values they must have,
and `SyntaxError.ofMembers?_eq_some_iff` that an error is read exactly if it is
described.  So the order of the members does not matter, nor do members of other
names, and every name but those of the hints must occur once.
-/

namespace Json

theorem membersNamed_append (members others : List (String × Json)) (name : String) :
    membersNamed (members ++ others) name =
      membersNamed members name ++ membersNamed others name := by
  simp [membersNamed]

/-- Members in another order have the same values, in another order. -/
theorem membersNamed_perm
    {members others : List (String × Json)}
    (same : members.Perm others)
    (name : String) :
    (membersNamed members name).Perm (membersNamed others name) :=
  (same.filter _).map _

/-- A name has as many values as there are members with it. -/
theorem length_membersNamed (members : List (String × Json)) (name : String) :
    (membersNamed members name).length = (members.map Prod.fst).count name := by
  rw [membersNamed, List.length_map, ← List.countP_eq_length_filter, List.count, List.countP_map]
  rfl

/-- Without a member of a name there is no value. -/
theorem membersNamed_eq_nil
    {members : List (String × Json)} {name : String}
    (absent : ∀ entry ∈ members, entry.1 ≠ name) :
    membersNamed members name = [] := by
  simpa [membersNamed] using absent

/-- Where no name occurs twice, every member has the one value of its name. -/
theorem membersNamed_of_nodup
    {members : List (String × Json)} {entry : String × Json}
    (nodup : (members.map Prod.fst).Nodup)
    (member : entry ∈ members) :
    membersNamed members entry.1 = [entry.2] := by
  obtain ⟨before, after, rfl⟩ := List.append_of_mem member
  rw [List.map_append, List.map_cons, List.nodup_append, List.nodup_cons] at nodup
  obtain ⟨-, ⟨notAfter, -⟩, notBefore⟩ := nodup
  have noneBefore : membersNamed before entry.1 = [] :=
    membersNamed_eq_nil fun other found =>
      notBefore _ (List.mem_map_of_mem found) _ List.mem_cons_self
  have noneAfter : membersNamed after entry.1 = [] :=
    membersNamed_eq_nil fun other found same => notAfter (same ▸ List.mem_map_of_mem found)
  have own : membersNamed (entry :: after) entry.1 = entry.2 :: membersNamed after entry.1 := by
    simp [membersNamed]
  rw [membersNamed_append, noneBefore, own, noneAfter]
  rfl

end Json

namespace SyntaxError

/-- The members that are always written. -/
def required (error : SyntaxError) : List (String × Json) :=
  [("file", .string error.file), ("code", .natural error.code),
    ("message", .string error.message), ("token", .string error.token),
    ("line", .natural error.span.start.line), ("column", .natural error.span.start.column),
    ("end_line", .natural error.span.stop.line), ("end_column", .natural error.span.stop.column),
    ("source_line", .string error.sourceLine)]

/-- The members that are written only when there is a hint. -/
def hints (error : SyntaxError) : List (String × Option String) :=
  [("expected", error.expected), ("suggestion", error.suggestion)]

/-- The names of the members that every error has. -/
def requiredNames : List String :=
  ["file", "code", "message", "token", "line", "column", "end_line", "end_column", "source_line"]

/-- The names of the hints. -/
def hintNames : List String := ["expected", "suggestion"]

theorem map_fst_required (error : SyntaxError) : error.required.map Prod.fst = requiredNames :=
  rfl

theorem map_fst_hints (error : SyntaxError) : error.hints.map Prod.fst = hintNames :=
  rfl

/-- An error is written with what is always written and with the hints that it has. -/
theorem members_eq (error : SyntaxError) :
    error.members = error.required ++
      error.hints.flatMap fun (name, hint) => Json.optional name (hint.map .string) := by
  simp [members, required, hints, Span.members]

/-- No name is written twice. -/
theorem nodup_map_fst_members (error : SyntaxError) :
    (error.members.map Prod.fst).Nodup := by
  rcases error with ⟨file, code, message, token, span, sourceLine, expected, suggestion⟩
  cases expected <;> cases suggestion <;> simp [members, Span.members, Json.optional]

/-- The code takes 16 bits, and the lines and columns 32 bits each. -/
structure Stored (error : SyntaxError) : Prop where
  code : error.code < 2 ^ 16
  line : error.span.start.line < Position.bound
  column : error.span.start.column < Position.bound
  endLine : error.span.stop.line < Position.bound
  endColumn : error.span.stop.column < Position.bound

/-- The values that members of a hint may have: no member and a null are no hint. -/
def hintValues : Option String → List (List Json)
  | none => [[], [.null]]
  | some hint => [[.string hint]]

/-- The members with the names of an error have the values of that error. -/
structure Describes (members : List (String × Json)) (error : SyntaxError) : Prop where
  required : ∀ entry ∈ error.required, Json.membersNamed members entry.1 = [entry.2]
  hints : ∀ entry ∈ error.hints, Json.membersNamed members entry.1 ∈ hintValues entry.2
  stored : error.Stored

theorem textMember?_eq_some_iff
    {members : List (String × Json)} {name value : String} :
    textMember? members name = some value ↔ Json.membersNamed members name = [.string value] := by
  unfold textMember?
  split
  case h_1 found same =>
    simp [same]
  case h_2 other =>
    simpa using fun same => other value same

theorem numberMember?_eq_some_iff
    {bound value : Nat} {members : List (String × Json)} {name : String} :
    numberMember? bound members name = some value ↔
      Json.membersNamed members name = [.natural value] ∧ value < bound := by
  unfold numberMember?
  split
  case h_1 found same =>
    have values : [Json.integer (.ofNat found)] = [.natural value] ↔ found = value := by
      simp [Json.natural]
    rw [same, values]
    constructor
    · intro read
      split at read
      · cases read
        exact ⟨rfl, ‹_›⟩
      · cases read
    · rintro ⟨rfl, small⟩
      exact if_pos small
  case h_2 other =>
    exact iff_of_false nofun fun read => other value read.1

theorem hintMember?_eq_some_iff
    {members : List (String × Json)} {name : String} {hint : Option String} :
    hintMember? members name = some hint ↔
      Json.membersNamed members name ∈ hintValues hint := by
  unfold hintMember?
  split
  case h_1 none =>
    cases hint <;> simp [hintValues, none]
  case h_2 null =>
    cases hint <;> simp [hintValues, null]
  case h_3 found same =>
    cases hint <;> simp [hintValues, same]
  case h_4 noneOther nullOther stringOther =>
    cases hint with
    | none => simpa [hintValues] using ⟨noneOther, nullOther⟩
    | some hint => simpa [hintValues] using stringOther hint

theorem spanMembers?_eq_some_iff
    {members : List (String × Json)} {span : Span} :
    spanMembers? members = some span ↔
      numberMember? Position.bound members "line" = some span.start.line ∧
        numberMember? Position.bound members "column" = some span.start.column ∧
          numberMember? Position.bound members "end_line" = some span.stop.line ∧
            numberMember? Position.bound members "end_column" = some span.stop.column := by
  rcases span with ⟨⟨line, column⟩, ⟨endLine, endColumn⟩⟩
  simp [spanMembers?, Option.bind_eq_some_iff]

/-- An error is read of some members exactly if they describe it. -/
theorem ofMembers?_eq_some_iff
    {members : List (String × Json)} {error : SyntaxError} :
    ofMembers? members = some error ↔ Describes members error := by
  rcases error with ⟨file, code, message, token, span, sourceLine, expected, suggestion⟩
  simp only [ofMembers?, Option.bind_eq_bind, Option.bind_eq_some_iff, textMember?_eq_some_iff,
    numberMember?_eq_some_iff, hintMember?_eq_some_iff, spanMembers?_eq_some_iff]
  constructor
  · rintro ⟨_, fileRead, _, codeRead, _, messageRead, _, tokenRead, _, spanRead, _, sourceLineRead,
      _, expectedRead, _, suggestionRead, ⟨⟩⟩
    obtain ⟨lineRead, columnRead, endLineRead, endColumnRead⟩ := spanRead
    refine ⟨?_, ?_, ⟨codeRead.2, lineRead.2, columnRead.2, endLineRead.2, endColumnRead.2⟩⟩
    · simp [required, fileRead, codeRead, messageRead, tokenRead, lineRead, columnRead,
        endLineRead, endColumnRead, sourceLineRead]
    · simp [hints, expectedRead, suggestionRead]
  · rintro ⟨required, hints, codeStored, lineStored, columnStored, endLineStored, endColumnStored⟩
    simp only [SyntaxError.required, SyntaxError.hints, List.forall_mem_cons] at required hints
    obtain ⟨fileRead, codeRead, messageRead, tokenRead, lineRead, columnRead, endLineRead,
      endColumnRead, sourceLineRead, -⟩ := required
    exact ⟨file, fileRead, code, ⟨codeRead, codeStored⟩, message, messageRead, token, tokenRead,
      span, ⟨⟨lineRead, lineStored⟩, ⟨columnRead, columnStored⟩, ⟨endLineRead, endLineStored⟩,
        ⟨endColumnRead, endColumnStored⟩⟩,
      sourceLine, sourceLineRead, expected, hints.1, suggestion, hints.2.1, rfl⟩

/-- The members of an error describe it. -/
theorem describes_members
    {error : SyntaxError}
    (stored : error.Stored) :
    Describes error.members error := by
  constructor
  · intro entry member
    refine Json.membersNamed_of_nodup error.nodup_map_fst_members ?_
    rw [members_eq]
    exact List.mem_append_left _ member
  · rcases error with ⟨file, code, message, token, span, sourceLine, expected, suggestion⟩
    cases expected <;> cases suggestion <;>
      simp [SyntaxError.hints, hintValues, members, Span.members, Json.optional, Json.membersNamed]
  · exact stored

/-- What is required occurs once, and a hint at most once. -/
theorem Describes.count_names
    {members : List (String × Json)} {error : SyntaxError}
    (describes : Describes members error) :
    (∀ name ∈ requiredNames, (members.map Prod.fst).count name = 1) ∧
      ∀ name ∈ requiredNames ++ hintNames, (members.map Prod.fst).count name ≤ 1 := by
  have once : ∀ name ∈ requiredNames, (members.map Prod.fst).count name = 1 := by
    rw [← map_fst_required error, List.forall_mem_map]
    intro entry member
    rw [← Json.length_membersNamed, describes.required entry member]
    rfl
  have atMostOnce : ∀ name ∈ hintNames, (members.map Prod.fst).count name ≤ 1 := by
    rw [← map_fst_hints error, List.forall_mem_map]
    intro entry member
    rw [← Json.length_membersNamed]
    have short : ∀ values ∈ hintValues entry.2, values.length ≤ 1 := by
      cases entry.2 <;> simp [hintValues]
    exact short _ (describes.hints entry member)
  refine ⟨once, fun name known => ?_⟩
  rcases List.mem_append.mp known with required | hint
  · exact Nat.le_of_eq (once name required)
  · exact atMostOnce name hint

/-- Members with the same values for the names of an error describe the same error. -/
theorem Describes.congr
    {members others : List (String × Json)} {error : SyntaxError}
    (describes : Describes members error)
    (same : ∀ name ∈ requiredNames ++ hintNames,
      Json.membersNamed others name = Json.membersNamed members name) :
    Describes others error := by
  refine ⟨fun entry member => ?_, fun entry member => ?_, describes.stored⟩
  · have known : entry.1 ∈ requiredNames :=
      map_fst_required error ▸ List.mem_map_of_mem member
    rw [same entry.1 (List.mem_append_left _ known)]
    exact describes.required entry member
  · have known : entry.1 ∈ hintNames :=
      map_fst_hints error ▸ List.mem_map_of_mem member
    rw [same entry.1 (List.mem_append_right _ known)]
    exact describes.hints entry member

/-- The order of the members does not matter, and neither do members of other names. -/
theorem Describes.perm
    {members others all : List (String × Json)} {error : SyntaxError}
    (describes : Describes members error)
    (same : all.Perm (members ++ others))
    (foreign : (others.map Prod.fst).Disjoint (requiredNames ++ hintNames)) :
    Describes all error := by
  refine describes.congr fun name known => ?_
  have absent : Json.membersNamed others name = [] :=
    Json.membersNamed_eq_nil fun entry member isName =>
      foreign (isName ▸ List.mem_map_of_mem member) known
  have values := Json.membersNamed_perm same name
  rw [Json.membersNamed_append, absent, List.append_nil] at values
  have short : (Json.membersNamed members name).length ≤ 1 := by
    rw [Json.length_membersNamed]
    exact describes.count_names.2 name known
  -- A list of one value at most has no other order.
  cases found : Json.membersNamed members name with
  | nil =>
      rw [found] at values
      exact values.eq_nil
  | cons value rest =>
      rw [found, List.length_cons] at short
      obtain rfl : rest = [] := List.length_eq_zero_iff.mp (by omega)
      rw [found] at values
      exact List.perm_singleton.mp values

/-- The members of a stored error fit wherever there is a place for them. -/
theorem fits_members
    {error : SyntaxError}
    (stored : error.Stored)
    (room : Nat) :
    ∀ entry ∈ error.members, Json.Fits room entry.2 := by
  have natural {n bound : Nat} (small : n < bound) (word : bound ≤ 2 ^ 64) :
      Json.Fits room (.natural n) :=
    .integer (Nat.lt_of_lt_of_le small word)
  obtain ⟨code, line, column, endLine, endColumn⟩ := stored
  rw [members_eq, List.forall_mem_append]
  constructor
  · simp only [required, List.forall_mem_cons]
    exact ⟨.string, natural code (by decide), .string, .string, natural line (by decide),
      natural column (by decide), natural endLine (by decide), natural endColumn (by decide),
      .string, nofun⟩
  · rcases error with ⟨file, code, message, token, span, sourceLine, expected, suggestion⟩
    cases expected <;> cases suggestion <;> simp [hints, Json.optional, Json.Fits.string]

/-- Of a text that is an object the error is read that its members describe. -/
theorem read?_of_object
    {text : String} {members : List (String × Json)}
    (object : Json.read? text = some (.object members)) :
    read? text = ofMembers? members := by
  simp [read?, object, ofJson?]

end SyntaxError

/--
Syntax errors survive their JSON form.

The compact text of an error is read back as that error.  Of every text that is an
object, the error is read if the object has the members of the error, in any order
and with any members of other names; no error is read if a member that every error
has is missing, or if a member of an error occurs more than once.
-/
theorem SyntaxError.read?_toJson
    (error : SyntaxError)
    (stored : error.Stored) :
    read? error.toJson.compact = some error ∧
      ∀ (text : String) (members : List (String × Json)),
        Json.read? text = some (.object members) →
          (∀ others, members.Perm (error.members ++ others) →
            (others.map Prod.fst).Disjoint (requiredNames ++ hintNames) →
              read? text = some error) ∧
          (∀ name ∈ requiredNames, name ∉ members.map Prod.fst → read? text = none) ∧
          ∀ name ∈ requiredNames ++ hintNames,
            1 < (members.map Prod.fst).count name → read? text = none := by
  have describes := describes_members stored
  have fits : Json.Fits Json.deepest error.toJson := .object (fits_members stored 126)
  refine ⟨?_, fun text members object => ?_⟩
  · rw [toJson, read?_of_object (Json.read?_compact fits)]
    exact ofMembers?_eq_some_iff.mpr describes
  rw [read?_of_object object]
  refine ⟨fun others same foreign => ?_, fun name required absent => ?_,
    fun name known repeated => ?_⟩
  · exact ofMembers?_eq_some_iff.mpr (describes.perm same foreign)
  · refine Option.eq_none_iff_forall_ne_some.mpr fun found read => ?_
    have once := (ofMembers?_eq_some_iff.mp read).count_names.1 name required
    rw [List.count_eq_zero_of_not_mem absent] at once
    cases once
  · refine Option.eq_none_iff_forall_ne_some.mpr fun found read => ?_
    have atMostOnce := (ofMembers?_eq_some_iff.mp read).count_names.2 name known
    omega

/-- An error is read from a rearranged text, but not without its file or with two expectations. -/
theorem SyntaxError.read?_toJson_rearranged :
    let error : SyntaxError :=
      ⟨"main", 100, "Unexpected token", "\"\x01", ⟨⟨2, 1⟩, ⟨2, 5⟩⟩, "\"\x01", some "';'", none⟩
    error.Stored ∧
      read? error.toJson.compact = some error ∧
        read? (Json.object (("note", .null) :: error.members.reverse)).compact = some error ∧
          read? (Json.object error.members.tail).compact = none ∧
            read? (Json.object (("expected", .null) :: error.members)).compact = none := by
  intro error
  have stored : error.Stored := by
    constructor <;> decide
  have fits := fits_members stored 126
  have reads (members : List (String × Json)) (each : ∀ entry ∈ members, Json.Fits 126 entry.2) :
      Json.read? (Json.object members).compact = some (.object members) :=
    Json.read?_compact (.object each)
  obtain ⟨back, texts⟩ := read?_toJson error stored
  refine ⟨stored, back, ?_, ?_, ?_⟩
  · refine (texts _ _ (reads _ ?_)).1 [("note", .null)] ?_ ?_
    · exact List.forall_mem_cons.mpr
        ⟨.null, fun entry member => fits entry (List.mem_reverse.mp member)⟩
    · exact ((List.reverse_perm _).cons _).trans (List.perm_append_singleton _ _).symm
    · simp [List.Disjoint, requiredNames, hintNames]
  · refine (texts _ _ (reads _ ?_)).2.1 "file" (by decide) (by decide)
    exact fun entry member => fits entry (List.mem_of_mem_tail member)
  · refine (texts _ _ (reads _ ?_)).2.2 "expected" (by decide) (by decide)
    exact List.forall_mem_cons.mpr ⟨.null, fits⟩

end Bhasha

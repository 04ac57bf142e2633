import Bhasha.Session

namespace Bhasha.Session

/-!
# What a session remembers of its history

A session answers every request as if it had no memory, and its memory is a
function of the texts it was asked about: the last of them that could be parsed.
Both need that digests tell these texts apart, as a session knows a text by its
digest alone.

`Keeps` ties a session to its history.  One request extends the history by its
text, `Keeps.handle`, and the rest is an induction over the requests.
-/

/-- What a session is asked for. -/
inductive Request where
  | parse (text : String)
  | run (text : String)

/-- What a session answers. -/
inductive Answer where
  | parsed (result : Except SyntaxError Program)
  | ran (report : Report)

namespace Request

def text : Request → String
  | parse text => text
  | run text => text

/-- The answer of the pipeline, which remembers nothing. -/
def answer (limits : Limits) : Request → Answer
  | parse text => .parsed (Source.ofText text).parse
  | run text => .ran ((Source.ofText text).run limits)

/-- The text of a request can be parsed. -/
def parses (request : Request) : Bool :=
  (Source.ofText request.text).parse.isOk

end Request

/-- The answer to a request, and the session after it. -/
def handle (session : Session) : Request → Answer × Session
  | .parse text =>
      let (result, next) := session.parse text
      (.parsed result, next)
  | .run text =>
      let (report, next) := session.run text
      (.ran report, next)

/-- The answers to requests one after the other, and the session after the last of them. -/
def handleAll (session : Session) : List Request → List Answer × Session
  | [] => ([], session)
  | request :: rest =>
      let (answer, next) := session.handle request
      let (answers, last) := next.handleAll rest
      (answer :: answers, last)

/-- The last text of a history that can be parsed. -/
def lastParsed? (history : List Request) : Option String :=
  (history.reverse.find? Request.parses).map Request.text

/-- Different texts of a history have different digests. -/
def ToldApart (history : List Request) : Prop :=
  ∀ first ∈ history, ∀ second ∈ history,
    digest first.text = digest second.text → first.text = second.text

theorem ToldApart.of_append
    {earlier later : List Request}
    (toldApart : ToldApart (earlier ++ later)) :
    ToldApart earlier :=
  fun first firstMember second secondMember =>
    toldApart first (List.mem_append_left _ firstMember)
      second (List.mem_append_left _ secondMember)

/-- What is remembered of a text that can be parsed. -/
def memory? (text : String) : Option Remembered :=
  (Source.ofText text).parse.toOption.map (⟨digest text, ·⟩)

/-- A session remembers the last text of a history that can be parsed, and nothing else. -/
def Keeps (session : Session) (history : List Request) : Prop :=
  session.remembered = (lastParsed? history).bind memory?

theorem lastParsed?_append_of_parses
    (history : List Request)
    {request : Request}
    (parses : request.parses = true) :
    lastParsed? (history ++ [request]) = some request.text := by
  simp [lastParsed?, parses]

theorem lastParsed?_append_of_fails
    (history : List Request)
    {request : Request}
    (fails : request.parses = false) :
    lastParsed? (history ++ [request]) = lastParsed? history := by
  simp [lastParsed?, fails]

/-- A text that a history leaves is the text of one of its requests. -/
theorem exists_of_lastParsed?
    {history : List Request} {text : String}
    (last : lastParsed? history = some text) :
    ∃ request ∈ history, request.text = text := by
  obtain ⟨request, found, same⟩ := Option.map_eq_some_iff.mp last
  exact ⟨request, List.mem_reverse.mp (List.mem_of_find?_eq_some found), same⟩

/-- A program that is known for the digest of a text is the program of that text. -/
theorem Keeps.parse_of_known?
    {session : Session} {history : List Request} {request : Request} {program : Program}
    (keeps : session.Keeps history)
    (toldApart : ToldApart (history ++ [request]))
    (known : session.known? (digest request.text) = some program) :
    session.remembered = memory? request.text ∧
      (Source.ofText request.text).parse = .ok program := by
  unfold known? at known
  split at known
  case h_2 =>
    cases known
  case h_1 entry remembered =>
    obtain ⟨text, last, entered⟩ := Option.bind_eq_some_iff.mp (keeps.symm.trans remembered)
    obtain ⟨result, parsed, rfl⟩ := Option.map_eq_some_iff.mp entered
    split at known
    case isFalse =>
      cases known
    case isTrue sameDigest =>
      cases known
      -- The remembered text stands in the history, so its digest tells it from all others there.
      obtain ⟨earlier, member, rfl⟩ := exists_of_lastParsed? last
      have sameText : earlier.text = request.text :=
        toldApart earlier (List.mem_append_left _ member) request (by simp) sameDigest
      rw [sameText] at parsed entered
      refine ⟨?_, ?_⟩
      · rw [remembered, sameText, entered]
      · cases outcome : (Source.ofText request.text).parse with
        | ok program =>
            rw [outcome] at parsed
            cases parsed
            rfl
        | error error =>
            rw [outcome] at parsed
            cases parsed

theorem parse_of_known?
    {session : Session} {text : String} {program : Program}
    (known : session.known? (digest text) = some program) :
    session.parse text = (.ok program, session) := by
  simp only [Session.parse, known]

theorem parse_of_ok
    {session : Session} {text : String} {program : Program}
    (unknown : session.known? (digest text) = none)
    (parsed : (Source.ofText text).parse = .ok program) :
    session.parse text =
      (.ok program, { session with remembered := some ⟨digest text, program⟩ }) := by
  simp only [Session.parse, unknown, parsed]

theorem parse_of_error
    {session : Session} {text : String} {error : SyntaxError}
    (unknown : session.known? (digest text) = none)
    (failed : (Source.ofText text).parse = .error error) :
    session.parse text = (.error error, session) := by
  simp only [Session.parse, unknown, failed]

/-- Parsing the text of a request gives its own result and extends the history. -/
theorem Keeps.parse
    {session : Session} {history : List Request} {request : Request}
    (keeps : session.Keeps history)
    (toldApart : ToldApart (history ++ [request])) :
    ∃ next : Session,
      session.parse request.text = ((Source.ofText request.text).parse, next) ∧
        next.limits = session.limits ∧ next.Keeps (history ++ [request]) := by
  cases known : session.known? (digest request.text) with
  | some program =>
      obtain ⟨remembered, parsed⟩ := keeps.parse_of_known? toldApart known
      have parses : request.parses = true := by
        simp [Request.parses, parsed, Except.isOk, Except.toBool]
      refine ⟨session, ?_, rfl, ?_⟩
      · rw [Session.parse_of_known? known, parsed]
      · rw [Keeps, lastParsed?_append_of_parses history parses]
        exact remembered
  | none =>
      cases parsed : (Source.ofText request.text).parse with
      | ok program =>
          have parses : request.parses = true := by
            simp [Request.parses, parsed, Except.isOk, Except.toBool]
          refine ⟨_, parse_of_ok known parsed, rfl, ?_⟩
          rw [Keeps, lastParsed?_append_of_parses history parses]
          simp [memory?, parsed, Except.toOption]
      | error error =>
          have fails : request.parses = false := by
            simp [Request.parses, parsed, Except.isOk, Except.toBool]
          refine ⟨_, parse_of_error known parsed, rfl, ?_⟩
          rw [Keeps, lastParsed?_append_of_fails history fails]
          exact keeps

/-- A session that parses a text as the pipeline does runs it as the pipeline does. -/
theorem run_of_parse
    {session next : Session} {text : String}
    (parsed : session.parse text = ((Source.ofText text).parse, next)) :
    session.run text = ((Source.ofText text).run session.limits, next) := by
  unfold Session.run Source.run
  rw [parsed]
  cases (Source.ofText text).parse <;> rfl

/-- A request is answered as the pipeline answers it, and extends the history. -/
theorem Keeps.handle
    {session : Session} {history : List Request} {request : Request}
    (keeps : session.Keeps history)
    (toldApart : ToldApart (history ++ [request])) :
    ∃ next : Session,
      session.handle request = (request.answer session.limits, next) ∧
        next.limits = session.limits ∧ next.Keeps (history ++ [request]) := by
  obtain ⟨next, parsed, limits, kept⟩ := keeps.parse toldApart
  refine ⟨next, ?_, limits, kept⟩
  cases request with
  | parse text =>
      have result : session.parse text = ((Source.ofText text).parse, next) := parsed
      rw [Session.handle, result]
      rfl
  | run text =>
      have report : session.run text = ((Source.ofText text).run session.limits, next) :=
        run_of_parse parsed
      rw [Session.handle, report]
      rfl

/-- Requests are answered as the pipeline answers them, and extend the history. -/
theorem Keeps.handleAll
    {session : Session} {history requests : List Request}
    (keeps : session.Keeps history)
    (toldApart : ToldApart (history ++ requests)) :
    ∃ last : Session,
      session.handleAll requests = (requests.map (Request.answer session.limits), last) ∧
        last.limits = session.limits ∧ last.Keeps (history ++ requests) := by
  induction requests generalizing session history with
  | nil =>
      rw [List.append_nil]
      exact ⟨session, rfl, rfl, keeps⟩
  | cons request rest inductionHypothesis =>
      rw [List.append_cons] at toldApart ⊢
      obtain ⟨next, handled, limits, kept⟩ := keeps.handle toldApart.of_append
      obtain ⟨last, answered, sameLimits, keptAll⟩ := inductionHypothesis kept toldApart
      refine ⟨last, ?_, sameLimits.trans limits, keptAll⟩
      simp only [Session.handleAll, handled, answered, limits, List.map_cons]

theorem keeps_start (limits : Limits) :
    (start limits).Keeps [] :=
  rfl

/-- The answers of a new session, and what it remembers after them. -/
theorem handleAll_start
    {requests : List Request}
    (toldApart : ToldApart requests)
    (limits : Limits) :
    (start limits).handleAll requests =
      (requests.map (Request.answer limits), ⟨limits, (lastParsed? requests).bind memory?⟩) := by
  obtain ⟨⟨lastLimits, remembered⟩, answered, sameLimits, kept⟩ :=
    (keeps_start limits).handleAll toldApart
  rw [answered]
  cases sameLimits
  cases kept
  rfl

/-- A remembered text can be parsed, so it is remembered with its digest. -/
theorem map_hash_lastParsed? (history : List Request) :
    ((lastParsed? history).bind memory?).map Remembered.hash =
      (lastParsed? history).map digest := by
  unfold lastParsed?
  cases found : history.reverse.find? Request.parses with
  | none =>
      rfl
  | some request =>
      have parses : request.parses = true := List.find?_some found
      unfold Request.parses at parses
      cases parsed : (Source.ofText request.text).parse with
      | ok program =>
          simp [memory?, parsed, Except.toOption]
      | error error =>
          rw [parsed] at parses
          cases parses

theorem map_program_lastParsed? (history : List Request) :
    ((lastParsed? history).bind memory?).map Remembered.program =
      (lastParsed? history).bind fun text => (Source.ofText text).parse.toOption := by
  cases lastParsed? history with
  | none =>
      rfl
  | some text =>
      simp only [Option.bind_some, memory?, Option.map_map]
      exact Option.map_id'

/--
A session answers as the pipeline does, and remembers the last text that could be parsed.

Every request to a new session has the answer that it has without a session.  The
program and the digest that are remembered are those of the last text that could
be parsed, if there is one; so a text that cannot be parsed leaves the session as
it was.
-/
theorem handleAll_eq_pipeline
    (limits : Limits)
    (requests : List Request)
    (toldApart : ToldApart requests) :
    ((start limits).handleAll requests).1 = requests.map (Request.answer limits) ∧
      ((start limits).handleAll requests).2.program? =
          (lastParsed? requests).bind (fun text => (Source.ofText text).parse.toOption) ∧
        ((start limits).handleAll requests).2.hash? = (lastParsed? requests).map digest ∧
          ∀ before request after,
            requests = before ++ request :: after →
            request.parses = false →
            ((start limits).handleAll (before ++ [request])).2 =
              ((start limits).handleAll before).2 := by
  refine ⟨?_, ?_, ?_, ?_⟩
  · rw [handleAll_start toldApart]
  · rw [handleAll_start toldApart]
    exact map_program_lastParsed? requests
  · rw [handleAll_start toldApart]
    exact map_hash_lastParsed? requests
  · rintro before request after rfl fails
    rw [List.append_cons] at toldApart
    have upToRequest : ToldApart (before ++ [request]) := toldApart.of_append
    rw [handleAll_start upToRequest, handleAll_start upToRequest.of_append,
      lastParsed?_append_of_fails before fails]

/-- A text is parsed, broken by an edit, run as it was, and broken again. -/
def brokenEdits : List Request :=
  [.parse "print(1);", .run "print(1;", .run "print(1);", .parse "print(1;"]

/-- After `brokenEdits` a session still remembers the text from before the last edit. -/
theorem handleAll_brokenEdits :
    ToldApart brokenEdits ∧
      ((start .standard).handleAll brokenEdits).1 =
          brokenEdits.map (Request.answer .standard) ∧
        ((start .standard).handleAll brokenEdits).2.hash? = some (digest "print(1);") := by
  have apart : digest "print(1);" ≠ digest "print(1;" := by
    decide +kernel
  have toldApart : ToldApart brokenEdits := by
    simp [ToldApart, brokenEdits, Request.text, apart, apart.symm]
  have last : lastParsed? brokenEdits = some "print(1);" := by
    decide +kernel
  obtain ⟨answered, -, hash, -⟩ := handleAll_eq_pipeline .standard brokenEdits toldApart
  rw [last] at hash
  exact ⟨toldApart, answered, hash⟩

end Bhasha.Session

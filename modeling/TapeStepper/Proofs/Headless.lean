import TapeStepper.CommandLine
import TapeStepper.Proofs.Cumulative

namespace TapeStepper

/-- What is behind that many bytes of a text. There is no such text when that is inside a character or
behind the end. -/
def fromByte? : Nat → Text → Option Text
  | 0, text => some text
  | _ + 1, [] => none
  | bytes + 1, c :: rest =>
    if c.utf8Size ≤ bytes + 1 then fromByte? (bytes + 1 - c.utf8Size) rest else none

theorem fromByte?_byteLength (first rest : Text) :
    fromByte? (byteLength first) (first ++ rest) = some rest := by
  induction first with
  | nil => simp [fromByte?]
  | cons c first ih =>
    have positive := c.utf8Size_pos
    obtain ⟨less, bytes⟩ : ∃ less, c.utf8Size + byteLength first = less + 1 :=
      ⟨c.utf8Size + byteLength first - 1, by omega⟩
    rw [byteLength_cons, bytes, List.cons_append, fromByte?, if_pos (by omega), ← bytes,
      Nat.add_sub_cancel_left, ih]

namespace Session

/-- The cuts that are made when a session is reported: how many bytes are printed already, and the
output of which the rest is printed. -/
def cuts (fuel : Nat) (watch : Stopwatch) : (pauses printed : Nat) → Session → List (Nat × Text)
  | pauses, printed, session =>
    (printed, session.result.output) ::
      if session.canContinue then
        match pauses with
        | 0 => []
        | pauses + 1 =>
          match session.resume fuel watch with
          | .ok (some next) => next.cuts fuel watch pauses (byteLength session.result.output)
          | .ok none | .error _ => []
      else []

/-- What is printed, unless a cut is made where none can be made. -/
def pieces? (fuel : Nat) (watch : Stopwatch) (pauses printed : Nat) (session : Session) :
    Option (List Text) :=
  (session.cuts fuel watch pauses printed).mapM fun cut => fromByte? cut.1 cut.2

section Equations

variable {fuel : Nat} {watch : Stopwatch} {showTime : Nat → Text} {pauses printed : Nat}
  {session next : Session}

theorem cuts_of_over (closed : session.canContinue = false) :
    session.cuts fuel watch pauses printed = [(printed, session.result.output)] := by
  unfold cuts
  simp [closed]

theorem report_of_over (closed : session.canContinue = false) :
    session.report fuel watch showTime pauses printed =
      some ⟨if session.result.exitCode.isSuccess then 0 else 1, session.result.output.drop printed,
        session.result.summary showTime⟩ := by
  unfold report
  simp [closed]

theorem cuts_of_resume (continues : session.canContinue = true)
    (resumed : session.resume fuel watch = .ok (some next)) :
    session.cuts fuel watch (pauses + 1) printed =
      (printed, session.result.output) ::
        next.cuts fuel watch pauses (byteLength session.result.output) := by
  rw [cuts.eq_def]
  simp [continues, resumed]

theorem report_of_resume (continues : session.canContinue = true)
    (resumed : session.resume fuel watch = .ok (some next)) :
    session.report fuel watch showTime (pauses + 1) printed =
      (next.report fuel watch showTime pauses session.result.output.length).map fun later =>
        { later with
          output := session.result.output.drop printed ++ later.output
          messages := session.result.summary showTime ++ later.messages } := by
  rw [report.eq_def]
  simp only [continues, resumed, if_true, Option.bind_eq_bind, Option.bind_some, Option.pure_def,
    Option.map_eq_bind]
  rfl

end Equations

/-- The session in which a report has ended, when `part` was printed before. -/
structure EndsIn (part : Text) (report : Report) (last : Session) : Prop where
  closed : last.canContinue = false
  output : part ++ report.output = last.result.output
  status : report.status = 0 ↔ last.result.exitCode.isSuccess = true

/-- Every cut can be made; and a report that ends has printed the pieces, up to the output of a session
that is over. -/
def Prints (config : Config) (chunks : List Text) (input part : Text) (pieces? : Option (List Text))
    (report? : Option Report) : Prop :=
  ∃ pieces, pieces? = some pieces ∧ ∀ report, report? = some report →
    report.output = pieces.flatten ∧
    ∃ requests last, Reached config chunks input requests last ∧ EndsIn part report last

section Printing

variable {config : Config} {chunks : List Text} {input part rest : Text}
  {requests : List Session.Request} {session : Session} {fuel : Nat} {watch : Stopwatch}
  {showTime : Nat → Text} {pauses : Nat}

theorem drop_of_split (split : part ++ rest = session.result.output) :
    session.result.output.drop part.length = rest := by
  rw [← split, List.drop_left]

theorem cut_of_split (split : part ++ rest = session.result.output) :
    fromByte? (byteLength part) session.result.output = some rest := by
  rw [← split, fromByte?_byteLength]

theorem Reached.prints_of_over (reached : Reached config chunks input requests session)
    (closed : session.canContinue = false) (split : part ++ rest = session.result.output) :
    Prints config chunks input part (session.pieces? fuel watch pauses (byteLength part))
      (session.report fuel watch showTime pauses part.length) := by
  refine ⟨[rest], ?_, ?_⟩
  · simp [pieces?, cuts_of_over closed, cut_of_split split]
  · intro report ended
    rw [report_of_over closed, drop_of_split split] at ended
    cases ended
    exact ⟨by simp, requests, session, reached, closed, split, by simp⟩

theorem Prints.of_resume {next : Session}
    (later : Prints config chunks input session.result.output
      (next.pieces? fuel watch pauses (byteLength session.result.output))
      (next.report fuel watch showTime pauses session.result.output.length))
    (continues : session.canContinue = true) (resumed : session.resume fuel watch = .ok (some next))
    (split : part ++ rest = session.result.output) :
    Prints config chunks input part (session.pieces? fuel watch (pauses + 1) (byteLength part))
      (session.report fuel watch showTime (pauses + 1) part.length) := by
  obtain ⟨pieces, printed, ends⟩ := later
  refine ⟨rest :: pieces, ?_, ?_⟩
  · unfold pieces? at printed ⊢
    simp [cuts_of_resume continues resumed, cut_of_split split, printed]
  · intro report ended
    rw [report_of_resume continues resumed, drop_of_split split] at ended
    obtain ⟨after, again, rfl⟩ := Option.map_eq_some_iff.mp ended
    obtain ⟨output, requests, last, reached, closed, total, status⟩ := ends after again
    refine ⟨by simp [output], requests, last, reached, closed, ?_, status⟩
    rw [← List.append_assoc, split, total]

/-- The induction is on the pauses that are left; what was printed is always the output of the result
before. -/
theorem Reached.prints (reached : Reached config chunks input requests session)
    (front : part <+: session.result.output) :
    Prints config chunks input part (session.pieces? fuel watch pauses (byteLength part))
      (session.report fuel watch showTime pauses part.length) := by
  induction pauses generalizing session requests part with
  | zero =>
    obtain ⟨rest, split⟩ := front
    cases continues : session.canContinue with
    | false => exact reached.prints_of_over continues split
    | true =>
      refine ⟨[rest], by simp [pieces?, cuts, continues, cut_of_split split], ?_⟩
      simp [report, continues]
  | succ pauses ih =>
    obtain ⟨rest, split⟩ := front
    cases continues : session.canContinue with
    | false => exact reached.prints_of_over continues split
    | true =>
      obtain ⟨next?, resumed⟩ := reached.exists_serve continues .resume fuel watch
      cases next? with
      | none =>
        have endless : session.resume fuel watch = .ok none := resumed
        refine ⟨[rest], by simp [pieces?, cuts, continues, endless, cut_of_split split], ?_⟩
        simp [report, continues, endless]
      | some next =>
        have later := ih (reached.serve resumed) (reached.continues resumed).result.output
        exact later.of_resume continues resumed split

end Printing

end Session

/-- What is seen of a session when a report of it has printed the pieces, one for each result: together
they are the output of the uninterrupted run, and the status tells whether that run succeeds. -/
structure Report.Complete (config : Config) (source input : Text) (pieces : List Text)
    (report : Report) : Prop where
  printed : report.output = pieces.flatten
  runs : config.budget = none → ∀ clock, ∃ fuel result,
    run fuel clock config source input = .ok (some result)
  agrees : config.budget = none → ∀ fuel clock result,
    run fuel clock config source input = .ok (some result) →
    result.output = pieces.flatten ∧ (report.status = 0 ↔ result.exitCode.isSuccess = true)

theorem Session.EndsIn.complete {config : Config} {chunks : List Text} {input : Text}
    {requests : List Session.Request} {last : Session} {pieces : List Text} {report : Report}
    (ends : EndsIn [] report last) (reached : Reached config chunks input requests last)
    (printed : report.output = pieces.flatten) :
    report.Complete config chunks.flatten input pieces where
  printed := printed
  runs unbounded clock :=
    (reached.agrees (Config.tapeSize_pos reached.valid) unbounded ends.closed clock).1
  agrees := by
    intro unbounded fuel clock result ran
    have size := Config.tapeSize_pos reached.valid
    have same : { result with elapsed := last.result.elapsed } = last.result :=
      (reached.agrees size unbounded ends.closed clock).2 fuel result ran
    have output : result.output = last.result.output := by rw [← same]
    have exitCode : result.exitCode = last.result.exitCode := by rw [← same]
    rw [output, exitCode, ← printed]
    exact ⟨ends.output.symm, ends.status⟩

/-- Each result of a session extends those before it, a session that is over stays so, and a report of
a session loses nothing of the output, whatever the clock answers. -/
theorem session_is_cumulative (config : Config) (chunks : List Text) (input : Text) :
    (∀ requests session, Session.Reached config chunks input requests session →
      (∀ request fuel watch next, session.serve request fuel watch = .ok (some next) →
        session.Continues chunks.flatten next) ∧
      (∀ calls, (session.result :: (session.answers calls).filterMap Except.toOption).Pairwise
        Result.Extends) ∧
      (session.canContinue = false →
        ∀ calls, session.answers calls = calls.map fun _ => .error .terminated)) ∧
    ∀ begun clock session, Session.start begun clock config chunks input = .ok (some session) →
      ∀ fuel watch showTime pauses, ∃ pieces, session.pieces? fuel watch pauses 0 = some pieces ∧
        ∀ report, session.report fuel watch showTime pauses 0 = some report →
          report.Complete config chunks.flatten input pieces := by
  refine ⟨?_, ?_⟩
  · intro requests session reached
    refine ⟨?_, reached.pairwise_extends, Session.answers_of_over⟩
    intro request fuel watch next served
    exact reached.continues served
  · intro begun clock session started fuel watch showTime pauses
    have reached : Session.Reached config chunks input [] session := .start started
    obtain ⟨pieces, printed, ends⟩ := reached.prints (List.nil_prefix)
    refine ⟨pieces, printed, ?_⟩
    intro report ended
    obtain ⟨output, requests, last, lead, finished⟩ := ends report ended
    exact finished.complete lead output

/-- A character of two bytes is printed, and printed again after a pause; then the session is over. -/
theorem session_is_cumulative_over_a_character_of_two_bytes :
    (∃ session next, Session.Reached ⟨.short, 1, none⟩ [[',', '.'], ['.']] ['é'] [] session ∧
      session.serve .resume 9 (fun _ => 0) = .ok (some next) ∧
      session.Continues [',', '.', '.'] next ∧ next.canContinue = false ∧
      next.answers [⟨.resume, 9, fun _ => 0⟩, ⟨.complete, 9, fun _ => 0⟩] =
        [.error .terminated, .error .terminated]) ∧
    ∃ session report, Session.start 9 (fun _ => 0) ⟨.short, 1, none⟩ [[',', '.'], ['.']] ['é'] =
        .ok (some session) ∧
      session.report 9 (fun _ => 0) (fun _ => []) 9 0 = some report ∧
      report.Complete ⟨.short, 1, none⟩ [',', '.', '.'] ['é'] [['é'], ['é']] := by
  obtain ⟨along, prints⟩ := session_is_cumulative ⟨.short, 1, none⟩ [[',', '.'], ['.']] ['é']
  have first := @Session.Reached.start ⟨.short, 1, none⟩ [[',', '.'], ['.']] ['é'] 9 (fun _ => 0) _ rfl
  have second := @Session.Reached.serve _ _ _ _ .resume 9 (fun _ => 0) _ _ first rfl
  refine ⟨⟨_, _, first, rfl, (along _ _ first).1 .resume 9 (fun _ => 0) _ rfl, rfl,
    (along _ _ second).2.2 rfl _⟩, ?_⟩
  obtain ⟨pieces, printed, complete⟩ := prints 9 (fun _ => 0) _ rfl 9 (fun _ => 0) (fun _ => []) 9
  obtain rfl := Option.some.inj printed
  exact ⟨_, _, rfl, rfl, complete _ rfl⟩

end TapeStepper

import KindQuery.Session
/-!
# Runs of calls

A session makes one call after another against one store, here a script
that answers from prepared responses and notes what it is asked. What a
call does is said in two parts: how rows are fetched (`Fetches`), which is
the same for all calls, and what a call makes of them (`Call.answer`).
`Session.calls_run` says that a session does this and nothing else: each
call sends one request or none, and takes one response for each request.
-/

namespace KindQuery

/-! ## Calls -/

/-- A call of a session, by the type of what it gives. -/
inductive Call : Type → Type 1 where
  | all {α β : Type} (q : Query α β) : Call (List β)
  | first {α β : Type} (q : Query α β) : Call β
  | firstOrDefault {α β : Type} (q : Query α β) : Call (Option β)
  | single {α β : Type} (q : Query α β) : Call β
  | singleOrDefault {α β : Type} (q : Query α β) : Call (Option β)
  | any {α β : Type} (q : Query α β) : Call Bool

variable {τ σ γ δ : Type}

namespace Session

/-- Makes a call. -/
def call (s : Session τ σ) : Call γ → Action τ σ γ
  | .all q => s.all q
  | .first q => s.first q
  | .firstOrDefault q => s.firstOrDefault q
  | .single q => s.single q
  | .singleOrDefault q => s.singleOrDefault q
  | .any q => s.any q

/-- Makes calls one after another. A call that fails does not stop the ones
after it. -/
def calls (s : Session τ σ) : List (Σ γ, Call γ) → State τ σ →
    List (Σ γ, Except Error γ) × State τ σ
  | [], st => ([], st)
  | ⟨γ, c⟩ :: cs, st =>
    let (result, st) := s.call c st
    let (results, st) := s.calls cs st
    (⟨γ, result⟩ :: results, st)

end Session

namespace Call

/-- The pipeline of a call: that of its query, with the terminal stage of the
call at the end. -/
def pipeline : Call γ → Pipeline
  | all q => q.pipeline
  | first q => q.pipeline.push (.terminal .first none)
  | firstOrDefault q => q.pipeline.push (.terminal .firstOrDefault none)
  | single q => q.pipeline.push (.terminal .single none)
  | singleOrDefault q => q.pipeline.push (.terminal .singleOrDefault none)
  | any q => q.pipeline.push (.terminal .any none)

/-- What a call gives for the rows it gets. But for `all` no row beyond the
first one is read, and for `any` none is. Rows are counted before one is
read. -/
def answer (plan : Plan) : Call γ → List Entity → Reading γ
  | all q, rows => rows.mapM (Session.readRow q plan)
  | first _, [] | single _, [] => .ofExcept (.error Session.noElements)
  | firstOrDefault _, [] | singleOrDefault _, [] => pure none
  | single _, _ :: _ :: _ | singleOrDefault _, _ :: _ :: _ =>
    .ofExcept (.error Session.manyElements)
  | first q, row :: _ => Session.readRow q plan row
  | firstOrDefault q, row :: _ => do pure (some (← Session.readRow q plan row))
  | single q, [row] => Session.readRow q plan row
  | singleOrDefault q, [row] => do pure (some (← Session.readRow q plan row))
  | any _, rows => pure !rows.isEmpty

end Call

/-! ## What a session does -/

section Protocol

variable (advise : Compiled → σ → Except Error Unit × σ)

/-- The script after it has answered a request: the request is noted and one
response is used up. -/
def Script.afterRun (s : Script) (b : BoundQuery) : Script :=
  { s with responses := s.responses.drop 1, requests := s.requests ++ [.run b] }

/-- **How rows are fetched**: a pipeline is translated, the advisor is told of
the query, its parameters are bound, and a request is sent. The first of
these that fails ends it with its error; only the last one touches the
store. -/
inductive Fetches (p : Pipeline) (st : Session.State Script σ) :
    Except Error (Compiled × List Entity) → List BoundQuery → Session.State Script σ → Prop
  | untranslated {e : Error} {reads : ReadLog} :
      p.compile.after st.reads = (.error e, reads) →
      Fetches p st (.error e) [] { st with reads := reads }
  | refused {q : Compiled} {e : Error} {reads : ReadLog} {advisor : σ} :
      p.compile.after st.reads = (.ok q, reads) → advise q st.advisor = (.error e, advisor) →
      Fetches p st (.error e) [] { st with reads := reads, advisor := advisor }
  | unbound {q : Compiled} {e : Error} {reads : ReadLog} {advisor : σ} :
      p.compile.after st.reads = (.ok q, reads) → advise q st.advisor = (.ok (), advisor) →
      q.bind = .error e →
      Fetches p st (.error e) [] { st with reads := reads, advisor := advisor }
  | failed {q : Compiled} {b : BoundQuery} {e : Error} {reads : ReadLog} {advisor : σ} :
      p.compile.after st.reads = (.ok q, reads) → advise q st.advisor = (.ok (), advisor) →
      q.bind = .ok b → st.store.nextResponse = .error e →
      Fetches p st (.error e) [b]
        { st with reads := reads, advisor := advisor, store := st.store.afterRun b }
  | answered {q : Compiled} {b : BoundQuery} {rows : List Entity} {reads : ReadLog} {advisor : σ} :
      p.compile.after st.reads = (.ok q, reads) → advise q st.advisor = (.ok (), advisor) →
      q.bind = .ok b → st.store.nextResponse = .ok rows →
      Fetches p st (.ok (q, rows)) [b]
        { st with reads := reads, advisor := advisor, store := st.store.afterRun b }

namespace Call

/-- **One call**: rows are fetched for its pipeline, and it answers for them if
there are any to be had. -/
inductive Step (c : Call γ) (st : Session.State Script σ) :
    Except Error γ → List BoundQuery → Session.State Script σ → Prop
  | unanswered {e : Error} {sent : List BoundQuery} {st' : Session.State Script σ} :
      Fetches advise c.pipeline st (.error e) sent st' → Step c st (.error e) sent st'
  | answered {q : Compiled} {rows : List Entity} {sent : List BoundQuery}
      {st' : Session.State Script σ} {result : Except Error γ} {reads : ReadLog} :
      Fetches advise c.pipeline st (.ok (q, rows)) sent st' →
      (c.answer q.plan rows).after st'.reads = (result, reads) →
      Step c st result sent { st' with reads := reads }

/-- **Calls one after another**, with their results and the requests they
send. -/
inductive Run : List (Σ γ, Call γ) → Session.State Script σ → List (Σ γ, Except Error γ) →
    List BoundQuery → Session.State Script σ → Prop
  | nil {st : Session.State Script σ} : Run [] st [] [] st
  | cons {γ : Type} {c : Call γ} {cs : List (Σ γ, Call γ)} {st st₁ st' : Session.State Script σ}
      {result : Except Error γ} {results : List (Σ γ, Except Error γ)}
      {sent sent' : List BoundQuery} :
      Step advise c st result sent st₁ → Run cs st₁ results sent' st' →
      Run (⟨γ, c⟩ :: cs) st (⟨γ, result⟩ :: results) (sent ++ sent') st'

end Call

end Protocol

/-! ## Calls answer for what is fetched -/

namespace Session

theorem bind_apply (x : Action τ σ γ) (f : γ → Action τ σ δ) (st : State τ σ) :
    (x >>= f) st = match x st with
      | (.ok a, st₁) => f a st₁
      | (.error e, st₁) => (.error e, st₁) := by
  change (ExceptT.bindCont f (x st).1).run (x st).2 = _
  rcases x st with ⟨_ | _, _⟩ <;> rfl

theorem reading_apply (r : Reading γ) (st : State τ σ) : reading r st =
    ((r.after st.reads).1, { st with reads := (r.after st.reads).2 }) :=
  rfl

/-- A reading that goes on with another one is read as a chain of both. -/
theorem reading_bind (r : Reading γ) (f : γ → Reading δ) :
    (reading (r >>= f) : Action τ σ δ) = reading r >>= fun a => reading (f a) := by
  funext st
  rw [bind_apply, reading_apply, reading_apply, Reading.after_bind]
  rcases r.after st.reads with ⟨_ | _, _⟩ <;> rfl

/-- A row that is there is the row that must be there. -/
theorem bind_required (x : Action τ σ γ) : (x >>= fun b => pure (some b)) >>= required = x := by
  simp only [bind_assoc, pure_bind, required, bind_pure]

/-- **Every call fetches rows and answers for them.** -/
theorem call_eq (s : Session τ σ) (c : Call γ) :
    s.call c = s.fetch c.pipeline >>= fun x => reading (c.answer x.1.plan x.2) := by
  cases c with
  | all q | any q => rfl
  | first q =>
    simp only [call, first, oneRow, bind_assoc]
    refine bind_congr fun ⟨c, rows⟩ => ?_
    cases rows with
    | nil => rfl
    | cons row others => exact bind_required (reading (readRow q c.plan row))
  | single q =>
    simp only [call, single, oneRow, bind_assoc]
    refine bind_congr fun ⟨c, rows⟩ => ?_
    match rows with
    | [] | _ :: _ :: _ => rfl
    | [row] => exact bind_required (reading (readRow q c.plan row))
  | firstOrDefault q =>
    refine bind_congr fun ⟨c, rows⟩ => ?_
    cases rows with
    | nil => rfl
    | cons row others => exact (reading_bind (readRow q c.plan row) fun b => pure (some b)).symm
  | singleOrDefault q =>
    refine bind_congr fun ⟨c, rows⟩ => ?_
    match rows with
    | [] | _ :: _ :: _ => rfl
    | [row] => exact (reading_bind (readRow q c.plan row) fun b => pure (some b)).symm

section Protocol

variable {advise : Compiled → σ → Except Error Unit × σ} {config : Config}
  {st st' : State Script σ}

/-- The steps of fetching rows, one after another. -/
theorem fetch_apply (p : Pipeline) : fetch ⟨Script.transport, advise, config⟩ p st =
    match p.compile.after st.reads with
    | (.error e, reads) => (.error e, { st with reads := reads })
    | (.ok q, reads) =>
      match advise q st.advisor with
      | (.error e, advisor) => (.error e, { st with reads := reads, advisor := advisor })
      | (.ok (), advisor) =>
        match q.bind with
        | .error e => (.error e, { st with reads := reads, advisor := advisor })
        | .ok b =>
          (st.store.nextResponse.map fun rows => (q, rows),
            { st with reads := reads, advisor := advisor, store := st.store.afterRun b }) := by
  rw [fetch, bind_apply, reading_apply]
  rcases p.compile.after st.reads with ⟨e | q, reads⟩
  · rfl
  dsimp only
  rw [bind_apply]
  simp only [consult]
  rcases advise q st.advisor with ⟨e | u, advisor⟩
  · rfl
  dsimp only
  rw [bind_apply]
  cases q.bind with
  | error e => rfl
  | ok b =>
    change (send ⟨Script.transport, advise, config⟩ b >>= fun rows => pure (q, rows)) _ = _
    rw [bind_apply]
    simp only [send, Script.transport, Script.run, Script.afterRun, List.drop_one]
    cases st.store.nextResponse <;> rfl

/-- **Rows are fetched as they should be**, and in no other way. -/
theorem fetch_eq_iff {p : Pipeline} {result : Except Error (Compiled × List Entity)} :
    fetch ⟨Script.transport, advise, config⟩ p st = (result, st') ↔
      ∃ sent, Fetches advise p st result sent st' := by
  rw [fetch_apply]
  constructor
  · intro h
    split at h
    next e reads hp =>
      cases h
      exact ⟨[], .untranslated hp⟩
    next q reads hp =>
      split at h
      next e advisor ha =>
        cases h
        exact ⟨[], .refused hp ha⟩
      next advisor ha =>
        split at h
        next e hb =>
          cases h
          exact ⟨[], .unbound hp ha hb⟩
        next b hb =>
          cases hr : st.store.nextResponse with
          | error e =>
            rw [hr] at h
            cases h
            exact ⟨[b], .failed hp ha hb hr⟩
          | ok rows =>
            rw [hr] at h
            cases h
            exact ⟨[b], .answered hp ha hb hr⟩
  · rintro ⟨sent, h⟩
    cases h with
    | untranslated hp => rw [hp]
    | refused hp ha => simp only [hp, ha]
    | unbound hp ha hb => simp only [hp, ha, hb]
    | failed hp ha hb hr | answered hp ha hb hr =>
      simp only [hp, ha, hb, hr]
      rfl

end Protocol

end Session

/-! ## Runs -/

section Protocol

variable {advise : Compiled → σ → Except Error Unit × σ} {config : Config}
  {st st' : Session.State Script σ} {sent sent' : List BoundQuery}

/-- A script has answered requests: they are noted after the earlier ones, and
so many responses are used up. -/
structure Script.Answers (s : Script) (sent : List BoundQuery) (s' : Script) : Prop where
  requests : s'.requests = s.requests ++ sent.map .run
  responses : s'.responses = s.responses.drop sent.length
  taken : s'.taken = s.taken

theorem Script.Answers.append {s s₁ s' : Script} (h : s.Answers sent s₁)
    (h' : s₁.Answers sent' s') : s.Answers (sent ++ sent') s' where
  requests := by rw [h'.requests, h.requests, List.map_append, List.append_assoc]
  responses := by rw [h'.responses, h.responses, List.drop_drop, List.length_append]
  taken := h'.taken.trans h.taken

/-- What is fetched takes one response for each request, of which there is one
at most. -/
theorem Fetches.answers {p : Pipeline} {result : Except Error (Compiled × List Entity)}
    (h : Fetches advise p st result sent st') :
    st.store.Answers sent st'.store ∧ st'.tokens = st.tokens := by
  cases h with
  | untranslated | refused | unbound => exact ⟨⟨(List.append_nil _).symm, rfl, rfl⟩, rfl⟩
  | failed | answered => exact ⟨⟨rfl, rfl, rfl⟩, rfl⟩

/-- What a script has answered can be told from what it is afterwards. -/
theorem Script.Answers.sent_eq {s s' : Script} (h : s.Answers sent s') (h' : s.Answers sent' s') :
    sent = sent' := by
  have hmap : sent.map Request.run = sent'.map Request.run :=
    List.append_cancel_left (h.requests.symm.trans h'.requests)
  exact (List.map_inj_right fun _ _ => Request.run.inj).1 hmap

namespace Call

variable {c : Call γ} {cs : List (Σ γ, Call γ)} {result : Except Error γ}
  {results : List (Σ γ, Except Error γ)}

theorem call_eq_iff : Session.call ⟨Script.transport, advise, config⟩ c st = (result, st') ↔
    ∃ sent, Step advise c st result sent st' := by
  rw [Session.call_eq, Session.bind_apply]
  constructor
  · intro h
    rcases hf : Session.fetch ⟨Script.transport, advise, config⟩ c.pipeline st with ⟨e | x, st₁⟩
    · rw [hf] at h
      cases h
      obtain ⟨sent, hsent⟩ := Session.fetch_eq_iff.1 hf
      exact ⟨sent, .unanswered hsent⟩
    · obtain ⟨q, rows⟩ := x
      rw [hf] at h
      obtain ⟨sent, hsent⟩ := Session.fetch_eq_iff.1 hf
      cases h
      exact ⟨sent, .answered hsent rfl⟩
  · rintro ⟨sent, h⟩
    cases h with
    | unanswered hf => rw [Session.fetch_eq_iff.2 ⟨sent, hf⟩]
    | answered hf ha =>
      rw [Session.fetch_eq_iff.2 ⟨sent, hf⟩]
      simp only [Session.reading_apply, ha]

theorem Step.answers (h : Step advise c st result sent st') :
    st.store.Answers sent st'.store ∧ st'.tokens = st.tokens := by
  cases h with
  | unanswered hf => exact hf.answers
  | answered hf => exact hf.answers

theorem calls_eq_iff : Session.calls ⟨Script.transport, advise, config⟩ cs st = (results, st') ↔
    ∃ sent, Run advise cs st results sent st' := by
  induction cs generalizing st results with
  | nil =>
    constructor
    · intro h
      cases h
      exact ⟨[], .nil⟩
    · rintro ⟨sent, h⟩
      cases h
      rfl
  | cons c cs ih =>
    obtain ⟨γ, c⟩ := c
    rw [Session.calls]
    constructor
    · intro h
      rcases hc : Session.call ⟨Script.transport, advise, config⟩ c st with ⟨result, st₁⟩
      rcases hcs : Session.calls ⟨Script.transport, advise, config⟩ cs st₁ with ⟨results', st₂⟩
      simp only [hc, hcs] at h
      cases h
      obtain ⟨sent, hstep⟩ := call_eq_iff.1 hc
      obtain ⟨sent', hrun⟩ := ih.1 hcs
      exact ⟨sent ++ sent', .cons hstep hrun⟩
    · rintro ⟨_, h⟩
      cases h with
      | cons hstep hrun =>
        rw [call_eq_iff.2 ⟨_, hstep⟩]
        simp only [ih.2 ⟨_, hrun⟩]

/-- Over a whole run as well, there is one response for each request. -/
theorem Run.answers (h : Run advise cs st results sent st') :
    st.store.Answers sent st'.store ∧ st'.tokens = st.tokens := by
  induction h with
  | nil => exact ⟨⟨(List.append_nil _).symm, rfl, rfl⟩, rfl⟩
  | cons hstep _ ih => exact ⟨hstep.answers.1.append ih.1, ih.2.trans hstep.answers.2⟩

end Call

/-- **A session keeps to the protocol.** Whatever calls are made over a script,
with any advisor: each of them takes its step, and there is no other run of
them. The requests that are sent are noted in order, and the responses that
are used up are as many from the front of those that were prepared. -/
theorem Session.calls_run (advise : Compiled → σ → Except Error Unit × σ) (config : Config)
    (cs : List (Σ γ, Call γ)) (st : Session.State Script σ) :
    ∃ results sent st', Session.calls ⟨Script.transport, advise, config⟩ cs st = (results, st') ∧
      Call.Run advise cs st results sent st' ∧
      st.store.Answers sent st'.store ∧ st'.tokens = st.tokens ∧
      ∀ results₁ sent₁ st₁, Call.Run advise cs st results₁ sent₁ st₁ →
        results₁ = results ∧ sent₁ = sent ∧ st₁ = st' := by
  obtain ⟨results, st', hcalls⟩ : ∃ results st',
      Session.calls ⟨Script.transport, advise, config⟩ cs st = (results, st') := ⟨_, _, rfl⟩
  obtain ⟨sent, hrun⟩ := Call.calls_eq_iff.1 hcalls
  refine ⟨results, sent, st', hcalls, hrun, hrun.answers.1, hrun.answers.2, ?_⟩
  intro results₁ sent₁ st₁ hrun₁
  have hcalls₁ : Session.calls ⟨Script.transport, advise, config⟩ cs st = (results₁, st₁) :=
    Call.calls_eq_iff.2 ⟨sent₁, hrun₁⟩
  cases hcalls.symm.trans hcalls₁
  exact ⟨rfl, hrun₁.answers.1.sent_eq hrun.answers.1, rfl⟩

end Protocol

/-- A call that is not translated sends nothing, so that the first response is
for the second call, which finds too many rows. The third one decodes its row,
and the last one finds no response left. -/
example :
    let persons : Query Record Record := .all (.ofSchema ⟨[]⟩
      ⟨"Person", [⟨"Id", .text, .key⟩, ⟨"Age", .int32, .normal⟩]⟩)
    let run := Session.calls ⟨Script.transport, fun _ advisor => (.ok (), advisor), .standard⟩
      [⟨Bool, .any (persons.take ⟨.value (.int32 1)⟩)⟩,
        ⟨Option Record, .singleOrDefault persons⟩, ⟨Record, .first persons⟩,
        ⟨Record, .first persons⟩]
      ⟨⟨[.ok [default, default],
          .ok [⟨some ⟨"Person", "ada"⟩, [("Age", ⟨.integer 7, true⟩)]⟩]], [], []⟩, (), [], []⟩
    run.1 = [⟨Bool, .error (.of (.invalidPipeline .takeWithTerminal))⟩,
        ⟨Option Record, .error Session.manyElements⟩, ⟨Record, .ok [.text "ada", .int32 7]⟩,
        ⟨Record, .error Session.noElements⟩] ∧
      run.2.store.responses = [] ∧ run.2.store.requests.length = 3 :=
  ⟨rfl, rfl, rfl⟩

end KindQuery

import Uwuubox.Server.Frames

/-!
# One request at a time

The protocol whose phases are the states turns `Obeys` into a Hoare logic of sequential runs:
`Triple mayFail w p fin err` says how `p` may end when it is started in `w`.

* `exec_statement`, `triple_ask` — an operation that is a statement either does what it should,
  or fails without effect.
* `exec_storage` — an operation of uploads and removals works on the storage part only;
  `exec_insertFile`, `exec_insertPaste`,
  `exec_setFileVisibility` — others.
* `TokenOnly` — a caller without a session who sends a valid token; `triple_currentIdentity`,
  `triple_currentUser`.
* `triple_iff_runs`, `ends_runs`, `Triple.eval` — from triples to runs.
-/

namespace Uwuubox
namespace Server

open Dedupe Storage Table Fallible

/-- Started in `w`, the handler ends with a value and in a state that `fin` accepts, or with an
error and in a state that `err` accepts. -/
abbrev Triple {α : Type} (mayFail : Op → Prop) (w : World) (p : Handler α) (fin : α → World → Prop)
    (err : Abort → World → Prop) : Prop := p.Obeys (.ofExec (exec mayFail)) fin err w

/-- The same of a query. -/
abbrev Query.Triple {α : Type} (mayFail : Op → Prop) (w : World) (p : Query α)
    (fin : α → World → Prop) : Prop := p.Obeys (.ofExec (exec mayFail)) fin w

variable {α : Type} {mayFail : Op → Prop} {w w' : World} {op : Op}

/-! ## Statements -/

/-- The operations that are statements or transactions: a failure is an error without effect. -/
def Op.isStatement : Op → Bool
  | storage _ | getStream _ _ | getRangeStream _ _ _ => false
  | _ => true

theorem exec_statement {r : op.Res} (h : exec mayFail w op r w') (hop : op.isStatement = true) :
    (r, w') = answer w op ∨ (mayFail op ∧ (∃ e, r = .error e) ∧ w' = w) := by
  rcases h with h | ⟨hfail, h⟩
  · exact .inl h
  · cases h with
    | statement e => exact .inr ⟨hfail, ⟨_, rfl⟩, rfl⟩
    | storage h => simp [Op.isStatement] at hop
    | getStream => simp [Op.isStatement] at hop
    | getRangeStream => simp [Op.isStatement] at hop

theorem triple_ask (hop : op.isStatement = true) {fin : op.Val → World → Prop}
    {err : Abort → World → Prop}
    (hok : ∀ v, (answer w op).1 = .ok v → fin v (answer w op).2)
    (herr : ∀ e, (answer w op).1 = .error e → err (Abort.error (.from' e)) (answer w op).2)
    (hfail : mayFail op → ∀ e, err (Abort.error e) w) : Triple mayFail w (ask op) fin err := by
  refine obeys_ask.2 ⟨trivial, fun r w' hexec => ?_⟩
  rcases exec_statement hexec hop with h | ⟨hmay, ⟨e, rfl⟩, rfl⟩
  · obtain ⟨rfl, rfl⟩ : r = (answer w op).1 ∧ w' = (answer w op).2 :=
      ⟨congrArg Prod.fst h, congrArg Prod.snd h⟩
    exact ⟨hok, herr⟩
  · exact ⟨fun v h => (nomatch h), fun e' _ => hfail hmay _⟩

/-- A statement that only reads. -/
theorem triple_read (hop : op.isStatement = true) (harea : op.area = none)
    {fin : op.Val → World → Prop} {err : Abort → World → Prop}
    (hok : ∀ v, (answer w op).1 = .ok v → fin v w)
    (herr : ∀ e, err (Abort.error e) w) : Triple mayFail w (ask op) fin err := by
  have hread : (answer w op).2 = w := exec_read (exec_answer mayFail w op) harea
  refine triple_ask hop (fun v h => ?_) (fun e _ => ?_) fun _ => herr
  · rw [hread]
    exact hok v h
  · rw [hread]
    exact herr _

/-- What writes nothing leaves the state alone. -/
theorem triple_of_only {p : Handler α} (h : Only [] p) :
    Triple mayFail w p (fun _ w' => w' = w) fun _ w' => w' = w := by
  have hsim : Prog.Obeys (.ofExec (exec mayFail)) (fun _ w' => ∃ γ : Unit, w' = w ∧ True) p.run w := by
    refine Prog.Obeys.simulate (fun _ w' => w' = w) (fun _ _ => trivial) ?_ (Only.run h) rfl
    rintro _ w' op r w'' rfl hop hexec
    refine ⟨(), trivial, exec_read hexec ?_⟩
    cases harea : op.area with
    | none => rfl
    | some area => exact absurd (hop area harea) List.not_mem_nil
  apply Prog.Obeys.mono hsim
  rintro r w' ⟨-, hw, -⟩
  cases r <;> exact hw

/-- A step that only reads, and whose value does not matter. -/
theorem triple_skip {β : Type} {p : Handler α} {f : α → Handler β} {fin : β → World → Prop}
    {err : Abort → World → Prop} (hp : Only [] p) (hf : ∀ a, Triple mayFail w (f a) fin err)
    (herr : ∀ e, err e w) : Triple mayFail w (p >>= f) fin err := by
  refine (obeys_bind _ _).2 ((triple_of_only hp).mono ?_ ?_)
  · rintro a w' rfl
    exact hf a
  · rintro e w' rfl
    exact herr e

/-- What uploads and removals execute works on the storage part. -/
theorem exec_storage {op : DbOp} {r : op.Res} (h : exec mayFail w (.storage op) r w') :
    ∃ dedupe, w' = { w with dedupe := dedupe } ∧
      Dedupe.exec (mayFail (.storage op)) w.dedupe op r dedupe := by
  rcases h with h | ⟨hfail, h⟩
  · cases h
    exact ⟨_, rfl, .inl rfl⟩
  · cases h with
    | statement e => exact ⟨w.dedupe, rfl, .inr ⟨hfail, ⟨_, rfl⟩, rfl, rfl, rfl, fun _ _ => rfl⟩⟩
    | storage h => exact ⟨_, rfl, .inr ⟨hfail, h⟩⟩

theorem exec_insertFile {row : FileRow} {columns : FileColumns} {r : (Op.insertFile row columns).Res}
    (h : exec mayFail w (.insertFile row columns) r w') :
    (∃ hcore, r = .ok () ∧ w' = { w with
      dedupe := { w.dedupe with files := w.dedupe.files.insert row hcore }
      fileColumns := Function.update w.fileColumns row.idCore columns }) ∨
    (∃ e, r = .error e) ∧ w' = w := by
  rcases exec_statement h rfl with heq | ⟨-, herr, rfl⟩
  · simp only [answer, Dedupe.answer] at heq
    split at heq
    · rename_i heq'
      split at heq'
      · rename_i hcore
        cases heq'
        cases heq
        exact .inl ⟨hcore, rfl, rfl⟩
      · cases heq'
    · cases heq
      exact .inr ⟨⟨_, rfl⟩, rfl⟩
  · exact .inr ⟨herr, rfl⟩

theorem exec_insertPaste {row : PasteRow} {r : (Op.insertPaste row).Res}
    (h : exec mayFail w (.insertPaste row) r w') :
    (∃ pastes, w.pastes.insert? row = some pastes ∧ r = .ok () ∧ w' = { w with pastes := pastes }) ∨
    (∃ e, r = .error e) ∧ w' = w := by
  rcases exec_statement h rfl with heq | ⟨-, herr, rfl⟩
  · simp only [answer] at heq
    split at heq
    · cases heq
      exact .inr ⟨⟨_, rfl⟩, rfl⟩
    · rename_i pastes hinsert
      cases heq
      exact .inl ⟨pastes, hinsert, rfl, rfl⟩
  · exact .inr ⟨herr, rfl⟩

/-- `UPDATE files SET visibility`: one row gets it, or none. -/
theorem exec_setFileVisibility {core : Text} {visibility : Visibility}
    {r : (Op.setFileVisibility core visibility).Res}
    (h : exec mayFail w (.setFileVisibility core visibility) r w') :
    (∃ row ∈ w.dedupe.files.rows, row.idCore.val = core ∧ w' = { w with
      fileColumns := Function.update w.fileColumns row.idCore
        { w.fileColumns row.idCore with visibility := visibility } }) ∨ w' = w := by
  rcases exec_statement h rfl with heq | ⟨-, -, rfl⟩
  · simp only [answer] at heq
    split at heq
    · cases heq
      exact .inr rfl
    · rename_i row hrow
      cases heq
      exact .inl ⟨row, List.mem_of_find?_eq_some hrow, by simpa using List.find?_some hrow, rfl⟩
  · exact .inr rfl

/-! ## Who is asking -/

/-- The request comes with the session or with a token of the user. -/
def MadeBy (env : Env) (w : World) (caller : Caller) (id : Uuid) : Prop :=
  (w.sessions caller.session).uid = some id ∨
  ∃ row ∈ w.apiTokens, row.userId = id ∧
    (bearer caller.headers.authorization).map env.apiTokenHash = some row.tokenHash

theorem tokenIdentity_found {tokenHash : Text} {user : User} {scopes : List Scope}
    (h : (answer w (.tokenIdentity tokenHash)).1 = .ok (some (user, scopes))) :
    user ∈ w.users ∧ ∃ row ∈ w.apiTokens, row.tokenHash = tokenHash ∧ row.userId = user.id := by
  obtain ⟨row, hrow, hfound⟩ := Option.bind_eq_some_iff.1 (Except.ok.inj h)
  obtain ⟨u, hu, heq⟩ := Option.map_eq_some_iff.1 hfound
  obtain ⟨rfl, rfl⟩ := Prod.mk.inj heq
  obtain ⟨huser, hid⟩ := Keyed.mem_of_find? hu
  have hhash := List.find?_some hrow
  simp only [Bool.and_eq_true, decide_eq_true_eq] at hhash
  exact ⟨huser, row, List.mem_of_find?_eq_some hrow, hhash.1, hid.symm⟩

section Found

variable {env : Env} {caller : Caller}

theorem triple_sessionUser_found : Query.Triple mayFail w (sessionUser caller.session) fun found w' =>
    w' = w ∧ ∀ u, found = some u → u ∈ w.users ∧ (w.sessions caller.session).uid = some u.id := by
  refine ⟨trivial, fun r w' hexec => ?_⟩
  obtain rfl := exec_read hexec rfl
  rcases exec_statement hexec rfl with heq | ⟨-, ⟨e, rfl⟩, -⟩
  · cases heq
    simp only [Prog.bind]
    cases huid : (w'.sessions caller.session).uid with
    | none => exact ⟨rfl, fun _ heq => by cases heq⟩
    | some uid =>
      refine ⟨trivial, fun r w'' hexec' => ?_⟩
      obtain rfl := exec_read hexec' rfl
      rcases exec_statement hexec' rfl with heq | ⟨-, ⟨e, rfl⟩, -⟩
      · cases heq
        refine ⟨rfl, fun u hu => ?_⟩
        obtain ⟨hmem, hid⟩ := Keyed.mem_of_find? hu
        exact ⟨hmem, congrArg some hid.symm⟩
      · exact ⟨rfl, fun _ heq => by cases heq⟩
  · exact ⟨rfl, fun _ heq => by cases heq⟩

theorem triple_bearerIdentity_found : Query.Triple mayFail w (bearerIdentity env caller.headers)
    fun found w' => w' = w ∧ ∀ i, found = some i → i.user ∈ w.users ∧ MadeBy env w caller i.user.id := by
  unfold bearerIdentity
  split
  · exact ⟨rfl, nofun⟩
  · rename_i token hbearer
    split
    · exact ⟨rfl, nofun⟩
    · refine ⟨trivial, fun r w' hexec => ?_⟩
      obtain rfl := exec_read hexec rfl
      rcases exec_statement hexec rfl with heq | ⟨-, ⟨e, rfl⟩, -⟩
      · match r, congrArg Prod.fst heq with
        | .ok (some (user, scopes)), hr =>
          obtain ⟨huser, row, hrow, hhash, hid⟩ := tokenIdentity_found hr.symm
          refine ⟨trivial, fun r w'' hexec' => ⟨exec_read hexec' rfl, fun i hi => ?_⟩⟩
          cases hi
          exact ⟨huser, .inr ⟨row, hrow, hid, by rw [hbearer, hhash]; rfl⟩⟩
        | .ok none, _ => exact ⟨rfl, nofun⟩
      · exact ⟨rfl, nofun⟩

theorem triple_currentIdentity_found : Query.Triple mayFail w (currentIdentity env caller)
    fun found w' => w' = w ∧ ∀ i, found = some i → i.user ∈ w.users ∧ MadeBy env w caller i.user.id := by
  refine (Prog.obeys_bind _ _ _).2 (triple_sessionUser_found.mono ?_)
  rintro found w' ⟨rfl, hfound⟩
  cases found with
  | none => exact triple_bearerIdentity_found
  | some user =>
    refine ⟨rfl, fun i hi => ?_⟩
    cases hi
    exact ⟨(hfound user rfl).1, .inl (hfound user rfl).2⟩

theorem triple_currentUser_found : Query.Triple mayFail w (currentUser env caller)
    fun found w' => w' = w ∧ ∀ u, found = some u → u ∈ w.users ∧ MadeBy env w caller u.id := by
  refine (Prog.obeys_bind _ _ _).2 (triple_sessionUser_found.mono ?_)
  rintro found w' ⟨rfl, hfound⟩
  cases found with
  | none =>
    refine (Prog.obeys_bind _ _ _).2 (triple_bearerIdentity_found.mono ?_)
    rintro identity w'' ⟨rfl, hidentity⟩
    refine ⟨rfl, fun u hu => ?_⟩
    obtain ⟨i, rfl, rfl⟩ := Option.map_eq_some_iff.1 hu
    exact hidentity i rfl
  | some user =>
    refine ⟨rfl, fun u hu => ?_⟩
    cases hu
    exact ⟨(hfound user rfl).1, .inl (hfound user rfl).2⟩

end Found

/-- A caller whose session is nobody's and who sends a valid token. -/
structure TokenOnly (env : Env) (w : World) (caller : Caller) (user : User) (scopes : List Scope) :
    Prop where
  session : (w.sessions caller.session).uid = none
  token : ∃ token, bearer caller.headers.authorization = some token ∧ isApiTokenFormat token = true ∧
    (answer w (.tokenIdentity (env.apiTokenHash token))).1 = .ok (some (user, scopes))

theorem TokenOnly.authorization {env : Env} {caller : Caller} {user : User} {scopes : List Scope}
    (h : TokenOnly env w caller user scopes) : caller.headers.authorization.isSome = true := by
  obtain ⟨token, hbearer, -⟩ := h.token
  cases hauth : caller.headers.authorization with
  | some _ => rfl
  | none => simp [bearer, hauth] at hbearer

section Identity

variable {env : Env} {caller : Caller} {user : User} {scopes : List Scope}

theorem triple_sessionUser (h : (w.sessions caller.session).uid = none) :
    Query.Triple mayFail w (sessionUser caller.session) fun found w' => found = none ∧ w' = w := by
  refine ⟨trivial, fun r w' hexec => ?_⟩
  rcases exec_statement hexec rfl with heq | ⟨-, ⟨e, rfl⟩, rfl⟩
  · cases heq
    simp only [Prog.bind, h]
    exact ⟨rfl, rfl⟩
  · exact ⟨rfl, rfl⟩

/-- Nobody, which takes a failure, or the owner of the token. -/
theorem triple_bearerIdentity (h : TokenOnly env w caller user scopes) :
    Query.Triple mayFail w (bearerIdentity env caller.headers) fun found w' => w' = w ∧
      (found = some ⟨user, scopes⟩ ∨ found = none ∧ ∃ op, mayFail op) := by
  obtain ⟨token, hbearer, hformat, hanswer⟩ := h.token
  unfold bearerIdentity
  simp only [hbearer, hformat]
  refine ⟨trivial, fun r w' hexec => ?_⟩
  rcases exec_statement hexec rfl with heq | ⟨hmay, ⟨e, rfl⟩, rfl⟩
  · obtain rfl : r = .ok (some (user, scopes)) := (congrArg Prod.fst heq).trans hanswer
    obtain rfl : w' = w := exec_read hexec rfl
    -- whether the touch fails does not matter
    refine ⟨trivial, fun r w'' hexec' => ?_⟩
    exact ⟨exec_read hexec' rfl, .inl rfl⟩
  · exact ⟨rfl, .inr ⟨rfl, _, hmay⟩⟩

theorem triple_currentIdentity (h : TokenOnly env w caller user scopes) :
    Query.Triple mayFail w (currentIdentity env caller) fun found w' => w' = w ∧
      (found = some ⟨user, scopes⟩ ∨ found = none ∧ ∃ op, mayFail op) := by
  refine (Prog.obeys_bind _ _ _).2 ((triple_sessionUser h.session).mono ?_)
  rintro _ _ ⟨rfl, rfl⟩
  exact triple_bearerIdentity h

theorem triple_currentUser (h : TokenOnly env w caller user scopes) :
    Query.Triple mayFail w (currentUser env caller) fun found w' => w' = w ∧
      (found = some user ∨ found = none ∧ ∃ op, mayFail op) := by
  refine (Prog.obeys_bind _ _ _).2 ((triple_sessionUser h.session).mono ?_)
  rintro _ _ ⟨rfl, rfl⟩
  refine (Prog.obeys_bind _ _ _).2 ((triple_bearerIdentity h).mono ?_)
  rintro _ _ ⟨rfl, rfl | ⟨rfl, hfail⟩⟩
  · exact ⟨rfl, .inl rfl⟩
  · exact ⟨rfl, .inr ⟨rfl, hfail⟩⟩

end Identity

/-! ## Runs -/

/-- A triple is a statement about all runs. -/
theorem triple_iff_runs {p : Handler α} {fin : α → World → Prop} {err : Abort → World → Prop} :
    Triple mayFail w p fin err ↔ ∀ r w', p.run.Runs (exec mayFail) w r w' →
      match r with
      | .ok a => fin a w'
      | .error e => err e w' := by
  unfold Triple Fallible.Obeys
  rw [Prog.obeys_ofExec_iff]
  refine forall_congr' fun r => forall_congr' fun w' => imp_congr_right fun _ => ?_
  cases r <;> exact Iff.rfl

/-- What a handler ends with is so after every run. -/
theorem ends_runs {fin : α → World → Prop} {p : Handler α} (h : Ends (exec mayFail) fin p) {a : α}
    (hrun : p.run.Runs (exec mayFail) w (.ok a) w') : fin a w' := triple_iff_runs.1 (h w) _ _ hrun

/-- Without failures there is one run, and the triple is about it. -/
theorem Triple.eval {p : Handler α} {fin : α → World → Prop} {err : Abort → World → Prop}
    (h : Triple (fun _ => False) w p fin err) :
    match (p.run.eval answer w).1 with
    | .ok a => fin a (p.run.eval answer w).2
    | .error e => err e (p.run.eval answer w).2 :=
  triple_iff_runs.1 h _ _ (Prog.runs_eval (exec_answer _) p.run w)

end Server
end Uwuubox

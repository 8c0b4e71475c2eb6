import Uwuubox.Server.Frames

/-!
# Tokens that make tokens

`createToken` takes the user from `currentUser`, which forgets the scopes of the token that was
sent, so a token makes tokens with any scopes.  Nothing else inserts tokens.

* `NoEscalation` — the requests of a party make tokens with scopes in `S` only.
* `noEscalation_of_grantsWithin` — **it holds where the party asks for no other scopes.**
* `escalates_uploadToken` — a token for uploads makes one that reads and deletes.
-/

namespace Uwuubox
namespace Server

open Dedupe Storage Table Fallible

/-- Whatever a request of the party does in any run, the tokens that come into existence by it
have their scopes in `S`. -/
def NoEscalation (env : Env) (mayFail : Op → Prop) (stop : Prop) (w₀ : World)
    (mine : Request → Prop) (S : Set Scope) : Prop :=
  ∀ p : Pool World Request Op Op.Res Outcome,
    Pool.Reachable (serve env) (exec mayFail) stop w₀ p →
    ∀ req op k r w', (req, .call op k) ∈ p.threads → mine req → exec mayFail p.shared op r w' →
      ∀ token ∈ w'.apiTokens, token ∉ p.shared.apiTokens → ∀ scope ∈ token.scopes, scope ∈ S

/-- A form for a new token that passes its checks asks for scopes in `S` only. -/
def Request.GrantsWithin (S : Set Scope) : Request → Prop
  | .createToken _ form _ _ => ∀ grant, form.parse = .ok grant → ∀ scope ∈ grant.scopes, scope ∈ S
  | _ => True

/-- An operation that inserts no token with scopes outside `S`. -/
def MintsWithin (S : Set Scope) (op : Op) : Prop :=
  ∀ row, op = .insertToken row → ∀ scope ∈ row.scopes, scope ∈ S

section

variable {S : Set Scope} {op : Op} {mayFail : Op → Prop} {w w' : World}

theorem eq_insertToken (h : op.area = some .tokens) : ∃ row, op = .insertToken row := by
  cases op with
  | insertToken row => exact ⟨row, rfl⟩
  | storage op => cases op <;> simp [Op.area] at h
  | _ => simp [Op.area] at h

theorem eq_revokeToken (h : op.area = some .revocations) : ∃ id userId, op = .revokeToken id userId := by
  cases op with
  | revokeToken id userId => exact ⟨id, userId, rfl⟩
  | storage op => cases op <;> simp [Op.area] at h
  | _ => simp [Op.area] at h

theorem mintsWithin_of_area (h : op.area ≠ some .tokens) : MintsWithin S op := by
  rintro row rfl
  exact absurd rfl h

theorem mintsWithin_of_within {areas : List Area} (h : Within areas op) (hareas : .tokens ∉ areas) :
    MintsWithin S op :=
  mintsWithin_of_area fun harea => hareas (h _ harea)

theorem exec_insertToken {row : ApiToken} {r : (Op.insertToken row).Res}
    (h : exec mayFail w (.insertToken row) r w') {token : ApiToken} (htoken : token ∈ w'.apiTokens) :
    token = row ∨ token ∈ w.apiTokens := by
  rcases h with h | ⟨-, h⟩
  · simp only [answer] at h
    split at h
    · cases h
      exact .inr htoken
    · split at h
      · cases h
        exact .inr htoken
      · rename_i tokens hinsert
        cases h
        exact (Keyed.mem_insert? hinsert).1 htoken
  · cases h
    exact .inr htoken

theorem exec_revokeToken {id userId : Uuid} {r : (Op.revokeToken id userId).Res}
    (h : exec mayFail w (.revokeToken id userId) r w') {token : ApiToken}
    (htoken : token ∈ w'.apiTokens) : token ∈ w.apiTokens := by
  rcases h with h | ⟨-, h⟩
  · cases h
    exact (Keyed.mem_delete.1 htoken).1
  · cases h
    exact htoken

/-- What such an operation adds to the table has its scopes in `S`. -/
theorem MintsWithin.exec {r : op.Res} (hop : MintsWithin S op) (h : exec mayFail w op r w')
    {token : ApiToken} (htoken : token ∈ w'.apiTokens) (hnew : token ∉ w.apiTokens) :
    ∀ scope ∈ token.scopes, scope ∈ S := by
  by_cases htokens : op.area = some .tokens
  · obtain ⟨row, rfl⟩ := eq_insertToken htokens
    rcases exec_insertToken h htoken with rfl | hold
    · exact hop _ rfl
    · exact absurd hold hnew
  · by_cases hrevocations : op.area = some .revocations
    · obtain ⟨id, userId, rfl⟩ := eq_revokeToken hrevocations
      exact absurd (exec_revokeToken h htoken) hnew
    · rw [exec_apiTokens h htokens hrevocations] at htoken
      exact absurd htoken hnew

end

variable (env : Env)

/-- `create_token` inserts the scopes of its form. -/
theorem createToken_obeys {S : Set Scope} (caller : Caller) (form : TokenForm) (id : Uuid)
    (token : Text) (hform : (Request.createToken caller form id token).GrantsWithin S) :
    (createToken env caller form id token).Obeys (.flat (MintsWithin S) fun _ _ => True)
      (fun _ _ => True) (fun _ _ => True) () := by
  have hnothing : ∀ (_ : Unit) op, Within [] op → MintsWithin S op := fun _ op h =>
    mintsWithin_of_within h List.not_mem_nil
  unfold createToken
  rw [obeys_bind]
  apply ((only_requireUser env caller).obeys hnothing ()).mono _ fun _ _ _ => trivial
  intro user _ _
  rw [obeys_bind, obeys_check]
  refine ⟨fun _ _ => trivial, fun grant hparse => ?_⟩
  refine (obeys_bind _ _).2 (obeys_ask.2 ⟨mintsWithin_of_area (by simp [Op.area]),
    fun _ _ _ => ⟨fun now _ => ?_, fun _ _ => trivial⟩⟩)
  refine (obeys_bind _ _).2 (obeys_ask.2 ⟨?_, fun _ _ _ => ⟨fun _ _ => ?_, fun _ _ => trivial⟩⟩)
  · rintro row ⟨⟩
    exact hform grant hparse
  · split
    · exact (only_dashboardResponse env user).obeys hnothing ()
    · exact trivial

/-- Every request inserts the scopes it asks for. -/
theorem serve_mintsWithin {S : Set Scope} (req : Request) (hreq : req.GrantsWithin S) :
    (serve env req).Obeys (.flat (MintsWithin S) fun _ _ => True) (fun _ _ => True) () := by
  by_cases htokens : .tokens ∈ req.areas
  · cases req with
    | createToken caller form id token =>
      exact Prog.Obeys.mono (createToken_obeys env caller form id token hreq) fun _ _ _ => trivial
    | _ => simp [Request.areas] at htokens
  · exact (serve_only env req).obeys (fun _ op h => mintsWithin_of_within h htokens) ()

/-- **Scopes escalate only where they are asked for.**  In every run, whatever other requests
interleave, fail or stop, a party makes only tokens with scopes in `S`, if none of the forms it
sends asks for another scope. -/
theorem noEscalation_of_grantsWithin (mayFail : Op → Prop) (stop : Prop) (w₀ : World)
    {mine : Request → Prop} {S : Set Scope} (hmine : ∀ req, mine req → req.GrantsWithin S) :
    NoEscalation env mayFail stop w₀ mine S := by
  intro p hp req op k r w' hthread hreq hexec token htoken hnew
  have hcode : ∀ req, (serve env req).Obeys
      (.flat (fun op => mine req → MintsWithin S op) fun _ _ => True) (fun _ _ => True) () := by
    intro req
    by_cases hmy : mine req
    · exact (serve_mintsWithin env req (hmine req hmy)).simulate (fun _ _ => True)
        (fun _ h _ => h) (fun _ _ _ => ⟨(), trivial, trivial⟩) trivial |>.mono fun _ _ _ => trivial
    · exact (serve_only env req).obeys (fun _ _ _ h => absurd h hmy) ()
  have hstep : ∀ req op w r w', (mine req → MintsWithin S op) → True → exec mayFail w op r w' →
      True ∧ True := fun _ _ _ _ _ _ _ _ => ⟨trivial, trivial⟩
  obtain ⟨-, hall⟩ := hp.invariant trivial hcode hstep
  exact ((hall _ hthread).1 hreq).exec hexec htoken hnew

/-! ## A token for uploads -/

/-- An API token. -/
def tokenText : Text := tokenPrefix ++ List.replicate 32 'a'

/-- A user who has nothing. -/
def plainUser (id : Uuid) (name : Text) (isAdmin : Bool) : User := newUser id name none none isAdmin

/-- One user, with a token that may upload. -/
def uploadTokenWorld : World where
  __ := World.empty
  users := ⟨[plainUser 1 ['k', 'a', 'z'] false], List.nodup_singleton _⟩
  apiTokens := ⟨[⟨1, 1, tokenText, [], [.upload], none⟩], List.nodup_singleton _⟩

/-- Nobody's session, and the token. -/
def tokenCaller : Caller := ⟨0, { Headers.none with authorization := some (utf8 (bearerWord ++ tokenText)) }⟩

/-- A form that asks for `scope`. -/
def scopeForm (scope : Scope) : TokenForm := ⟨none, none, none, none, some scope.name, none⟩

/-- A request for a further token with one scope. -/
def mint (scope : Scope) : Request :=
  .createToken tokenCaller (scopeForm scope) 2 (tokenPrefix ++ List.replicate 32 'b')

/-- The token that the request inserts. -/
def mintedToken (scope : Scope) : ApiToken :=
  ⟨2, 1, tokenPrefix ++ List.replicate 32 'b', [], [scope], none⟩

theorem noEscalation_of_grantsWithin_upload :
    NoEscalation .plain (fun _ => True) True uploadTokenWorld (· = mint .upload) {.upload} :=
  noEscalation_of_grantsWithin .plain _ _ _ fun req hreq => by
    subst hreq
    intro grant hparse
    cases hparse
    decide

/-- The request comes to its `INSERT`. -/
def mintTurns : List (Pool.Turn Request Unit) := .spawn (mint .read) :: List.replicate 4 (.act 0 ())

/-- The server then. -/
def mintPool : Pool World Request Op Op.Res Outcome :=
  Pool.play (serve .plain) (fun _ w op => answer w op) uploadTokenWorld mintTurns

theorem reachable_mintPool :
    Pool.Reachable (serve .plain) (exec fun _ => False) False uploadTokenWorld mintPool :=
  @Pool.reachable_play _ _ _ _ _ (serve .plain) _ False Unit (fun _ w op => answer w op)
    (fun _ _ => true) (fun _ w op _ => exec_answer _ w op) uploadTokenWorld mintTurns (by rfl)

/-- The token makes one that may read. -/
theorem escalates_uploadToken :
    (∀ token ∈ uploadTokenWorld.apiTokens, ∀ scope ∈ token.scopes, scope = .upload) ∧
    (∀ sid, (uploadTokenWorld.sessions sid).uid = none) ∧
    ¬ NoEscalation .plain (fun _ => False) False uploadTokenWorld (· = mint .read) {.upload} := by
  refine ⟨by decide, fun _ => rfl, fun h => ?_⟩
  have hpending : mintPool.pending = [(mint .read, .insertToken (mintedToken .read))] := rfl
  obtain ⟨k, hthread⟩ := Pool.mem_pending.1 (hpending ▸ List.mem_singleton_self _)
  have hrows : (answer mintPool.shared (.insertToken (mintedToken .read))).2.apiTokens.rows =
    mintedToken .read :: uploadTokenWorld.apiTokens.rows := rfl
  have hnew : mintedToken .read ∉ uploadTokenWorld.apiTokens.rows := by decide
  have hread : Scope.read ∈ ({.upload} : Set Scope) :=
    h mintPool reachable_mintPool _ _ k _ _ hthread rfl (exec_answer _ _ _) (mintedToken .read)
      (Keyed.mem_def.2 (hrows ▸ List.mem_cons_self)) hnew .read (List.mem_singleton_self _)
  cases hread

end Server
end Uwuubox

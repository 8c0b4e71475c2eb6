import Uwuubox.Server.Bootstrap
import Uwuubox.Prog.Tracked

/-!
# The account of an identity

A callback of `src/oidc.rs` looks for the account that the identity is linked to.  If there is none it inserts a user,
and links it with another statement.

* `Callback` — a callback of one identity; `OidcPool` — the runs of any number of them.
* `owed` — what a callback has inserted and not linked yet.
* `OneAccount` — at most one user is inserted, and is linked when all callbacks have ended.
* `Orderly` — a user is inserted only while nothing is linked and nothing is owed, and a link takes no inserted user's
  identity away.
* `oneAccount_of_orderly` — **in a run of orderly steps there is one account**, where no callback ends that still owes a
  link.
* `race_disagrees` — two callbacks that both find no account, and one whose link fails.
-/

open Relation

namespace Uwuubox
namespace Server

open Dedupe Storage Table Fallible

/-! ## Callbacks -/

/-- A callback of the identity; its token may be refused, too. -/
structure Callback (issuer sub : Text) where
  sid : SessionId
  state : Text
  claims : Except AppError Claims
  id : Uuid
  same : ∀ c, claims = .ok c → c.issuer = issuer ∧ c.sub = sub

/-- The server, and the users that callbacks have inserted. -/
structure OidcWorld where
  server : World
  created : List Uuid

/-- Whom the identity is linked to. -/
def World.linked (w : World) (issuer sub : Text) : Option Uuid :=
  (w.oidcIdentities.find? (issuer, sub)).map OidcIdentity.userId

/-- The user that an operation has inserted. -/
def createdBy : (op : Op) → op.Res → List Uuid
  | .insertUser _, .ok user => [user.id]
  | .createUser _ _, .ok (some user) => [user.id]
  | _, _ => []

/-- What a callback has inserted and not linked yet. -/
def owed (g : Multiset Uuid) : (op : Op) → op.Res → Multiset Uuid
  | .linkOidc _ _ id, .ok _ => g.erase id
  | op, r => createdBy op r + g

/-- `callback`. -/
def serveCallback {issuer sub : Text} (env : Env) (c : Callback issuer sub) : Query Outcome :=
  (oidcCallback env c.sid c.state c.claims c.id).run

/-- An operation of the server; what it inserts is noted. -/
def execOidc (mayFail : Op → Prop) (s : OidcWorld) (op : Op) (r : op.Res) (s' : OidcWorld) : Prop :=
  exec mayFail s.server op r s'.server ∧ s'.created = createdBy op r ++ s.created

/-- The callbacks that run, with what they owe. -/
abbrev OidcPool (issuer sub : Text) := Pool OidcWorld (Callback issuer sub × Multiset Uuid) Op Op.Res Outcome

/-- **One account**: at most one user is inserted, and is linked when all callbacks have ended. -/
structure OneAccount {issuer sub : Text} (p : OidcPool issuer sub) : Prop where
  atMostOne : p.shared.created.length ≤ 1
  linked : p.threads = [] → ∀ id ∈ p.shared.created, p.shared.server.linked issuer sub = some id

/-- A step that is in order, while the others owe `f`. -/
structure Orderly (issuer sub : Text) (s : OidcWorld) (f : Multiset Uuid) (op : Op) : Prop where
  inserts : op.inserts.isSome → s.server.linked issuer sub = none ∧ f = 0
  links : ∀ id, op = .linkOidc issuer sub id → ∀ old ∈ s.created, s.server.linked issuer sub = some old → id = old

/-- The pools of the runs of orderly steps, where a callback ends only if it owes nothing. -/
def OrderlyReached {issuer sub : Text} (env : Env) (mayFail : Op → Prop) (w₀ : World) : OidcPool issuer sub → Prop :=
  Tracked.Reachable owed (fun s _ f op => Orderly issuer sub s f op) (fun _ g => g = 0) (serveCallback env)
    (execOidc mayFail) ⟨w₀, []⟩

/-! ## What an operation changes -/

section

variable {w w' : World} {op : Op} {r : op.Res} {mayFail : Op → Prop} {g : Multiset Uuid} {issuer sub : Text}

theorem exec_linked (h : exec mayFail w op r w') (harea : op.area ≠ some .identities) :
    w'.linked issuer sub = w.linked issuer sub := by
  have hframe := exec_frame h
  have hidentities : w'.oidcIdentities = w.oidcIdentities := by
    generalize op.area = area at *
    rcases area with _ | area
    · exact congrArg World.oidcIdentities hframe
    · cases area <;> first
        | exact absurd rfl harea
        | (obtain ⟨_, rfl⟩ := hframe; rfl) | (obtain ⟨_, _, rfl⟩ := hframe; rfl)
  unfold World.linked
  rw [hidentities]

/-- The `INSERT .. ON CONFLICT DO UPDATE` links the identity to the user, whoever was linked before. -/
theorem linked_linkOidc (w : World) (issuer sub : Text) (id : Uuid) :
    (answer w (.linkOidc issuer sub id)).2.linked issuer sub = some id := by
  simp only [answer, World.linked]
  cases hinsert : w.oidcIdentities.insert? ⟨issuer, sub, id⟩ with
  | some identities =>
    have hmem : (⟨issuer, sub, id⟩ : OidcIdentity) ∈ identities := (Keyed.mem_insert? hinsert).2 (.inl rfl)
    rw [Keyed.find?_eq_some.2 ⟨hmem, rfl⟩]
    rfl
  | none =>
    have htaken : ¬ ∀ row ∈ w.oidcIdentities.rows, (row.issuer, row.sub) ≠ (issuer, sub) := by
      intro hfree
      unfold Keyed.insert? at hinsert
      rw [dif_pos hfree] at hinsert
      cases hinsert
    push Not at htaken
    obtain ⟨row, hrow, hkey⟩ := htaken
    have hfind : w.oidcIdentities.find? (issuer, sub) = some row := Keyed.find?_eq_some.2 ⟨hrow, hkey⟩
    have hupdated := @Keyed.find?_update_self _ _ _ w.oidcIdentities _ _ _ (fun i => { i with userId := id })
      (fun _ => rfl) hfind
    exact congrArg (Option.map OidcIdentity.userId) hupdated

theorem answer_linkOidc (w : World) (issuer sub : Text) (id : Uuid) :
    (answer w (.linkOidc issuer sub id)).1 = .ok () := by
  simp only [answer]
  split <;> rfl

theorem createdBy_eq_nil (hop : op.inserts = none) : createdBy op r = [] := by
  cases op <;> first | rfl | cases hop

theorem owed_quiet (harea : op.area ≠ some .users) (harea' : op.area ≠ some .identities) : owed g op r = g := by
  cases op <;> first | exact zero_add g | exact absurd rfl harea | exact absurd rfl harea'

end

/-! ## What a callback performs -/

/-- A callback inserts a user only if it owes nothing, and links whom it owes, or anybody if it owes nothing. -/
structure MayOidc (issuer sub : Text) (g : Multiset Uuid) (op : Op) : Prop where
  inserts : op.inserts.isSome → g = 0
  links : ∀ i s id, op = .linkOidc i s id → i = issuer ∧ s = sub ∧ (g = 0 ∨ g = {id})

section

variable {env : Env} {issuer sub : Text} {α : Type}

/-- The protocol of a callback. -/
abbrev oidcProtocol (issuer sub : Text) : Protocol (Multiset Uuid) Op Op.Res :=
  Tracked.protocol owed (MayOidc issuer sub) fun _ _ => True

/-- What neither inserts nor links keeps what is owed. -/
theorem obeys_quiet {S : List Area} {p : Handler α} (h : Only S p) (husers : .users ∉ S) (hidentities : .identities ∉ S)
    (g : Multiset Uuid) : p.Obeys (oidcProtocol issuer sub) (fun _ g' => g' = g) (fun _ _ => True) g := by
  have hflat : p.run.Obeys (.flat (Within S) fun _ _ => True) (fun _ _ => True) () :=
    Prog.Obeys.mono h fun _ _ _ => trivial
  have harea : ∀ {op : Op}, Within S op → op.area ≠ some .users ∧ op.area ≠ some .identities := fun hop =>
    ⟨fun heq => husers (hop _ heq), fun heq => hidentities (hop _ heq)⟩
  refine (Prog.Obeys.simulate (fun _ g' => g' = g) ?_ ?_ hflat rfl).mono ?_
  · rintro _ _ op rfl hop
    refine ⟨fun hinserts => ?_, ?_⟩
    · cases op <;> first | exact absurd rfl (harea hop).1 | cases hinserts
    · rintro _ _ _ rfl
      exact absurd rfl (harea hop).2
  · rintro _ _ op r _ rfl hop ⟨-, rfl⟩
    exact ⟨(), trivial, owed_quiet (harea hop).1 (harea hop).2⟩
  · rintro result _ ⟨-, rfl, -⟩
    cases result <;> trivial

/-- The link of what is owed, or of any user. -/
theorem obeys_linkOidc {g : Multiset Uuid} {id : Uuid} (hg : g = 0 ∨ g = {id}) :
    (ask (.linkOidc issuer sub id)).Obeys (oidcProtocol issuer sub) (fun _ g' => g' = 0) (fun _ _ => True) g := by
  refine obeys_ask.2 ⟨⟨(fun h => nomatch h), ?_⟩, ?_⟩
  · rintro i s id' heq
    cases heq
    exact ⟨rfl, rfl, hg⟩
  · rintro r _ ⟨-, rfl⟩
    refine ⟨?_, fun _ _ => trivial⟩
    rintro v rfl
    show g.erase id = 0
    rcases hg with rfl | rfl
    · exact Multiset.erase_zero _
    · exact Multiset.erase_singleton _

/-- The insertion of a user, who is owed from then on. -/
theorem obeys_provision (cfg : InstanceConfig) (row : User) (invite : Option Text) :
    (provision cfg row invite).Obeys (oidcProtocol issuer sub) (fun user g => g = {user.id}) (fun _ _ => True) 0 := by
  have hmay : ∀ {op : Op}, op.inserts = some row → MayOidc issuer sub 0 op := by
    intro op hop
    refine ⟨fun _ => rfl, ?_⟩
    rintro _ _ _ rfl
    cases hop
  unfold provision
  split
  · refine (obeys_bind _ _).2 (obeys_always.2 ⟨hmay rfl, ?_⟩)
    rintro r _ ⟨-, rfl⟩
    match r with
    | .ok (some user) => exact add_zero _
    | .ok none => exact trivial
    | .error e => exact trivial
  · refine obeys_ask.2 ⟨hmay rfl, ?_⟩
    rintro r _ ⟨-, rfl⟩
    refine ⟨?_, fun _ _ => trivial⟩
    rintro user rfl
    exact add_zero _

/-- After the link, a callback writes roles and its session. -/
theorem obeys_linked {p : Handler α} (h : Only [.roleOfUser, .sessions] p) :
    p.Obeys (oidcProtocol issuer sub) (fun _ _ => True) (fun _ _ => True) 0 :=
  (obeys_quiet h (by decide) (by decide) 0).mono (fun _ _ _ => trivial) fun _ _ _ => trivial

theorem obeys_oidcFirstLogin (sid : SessionId) (cfg : InstanceConfig) (claims : Claims) (id : Uuid)
    (hsame : claims.issuer = issuer ∧ claims.sub = sub) : (oidcFirstLogin env sid cfg claims id).Obeys
      (oidcProtocol issuer sub) (fun _ _ => True) (fun _ _ => True) 0 := by
  obtain ⟨rfl, rfl⟩ := hsame
  have hquiet {β : Type} {p : Handler β} (h : Only [] p) : p.Obeys (oidcProtocol claims.issuer claims.sub)
      (fun _ g' => g' = 0) (fun _ _ => True) 0 := obeys_quiet h List.not_mem_nil List.not_mem_nil 0
  refine (obeys_bind _ _).2 ((hquiet .reject).mono ?_ fun _ _ h => h)
  rintro - _ rfl
  refine (obeys_bind _ _).2 ((hquiet (.read rfl)).mono ?_ fun _ _ h => h)
  rintro session _ rfl
  refine (obeys_bind _ _).2 ((hquiet .reject).mono ?_ fun _ _ h => h)
  rintro - _ rfl
  refine (obeys_bind _ _).2 ((hquiet (only_freeUsername _ _ _)).mono ?_ fun _ _ h => h)
  rintro username _ rfl
  refine (obeys_bind _ _).2 ((hquiet (.read rfl)).mono ?_ fun _ _ h => h)
  rintro count _ rfl
  -- the user, and the link
  refine (obeys_bind _ _).2 ((obeys_provision cfg _ _).mono ?_ fun _ _ h => h)
  rintro user _ rfl
  refine (obeys_bind _ _).2 ((obeys_linkOidc (.inr rfl)).mono ?_ fun _ _ h => h)
  rintro - _ rfl
  exact obeys_linked (.bind (only_applyGroupRole user _ _ (by decide)) fun _ =>
    .bind (.ask (within_of_some rfl (by decide))) fun _ => .bind (only_logIn sid user.id (by decide)) fun _ => .pure)

theorem obeys_oidcCallback (sid : SessionId) (state : Text) (claims : Except AppError Claims) (id : Uuid)
    (hsame : ∀ c, claims = .ok c → c.issuer = issuer ∧ c.sub = sub) : (oidcCallback env sid state claims id).Obeys
      (oidcProtocol issuer sub) (fun _ _ => True) (fun _ _ => True) 0 := by
  have hquiet {β : Type} {p : Handler β} (h : Only [] p) : p.Obeys (oidcProtocol issuer sub)
      (fun _ g' => g' = 0) (fun _ _ => True) 0 := obeys_quiet h List.not_mem_nil List.not_mem_nil 0
  refine (obeys_bind _ _).2 ((hquiet (.read rfl)).mono ?_ fun _ _ h => h)
  rintro cfg _ rfl
  refine (obeys_bind _ _).2 ((hquiet .reject).mono ?_ fun _ _ h => h)
  rintro - _ rfl
  refine (obeys_bind _ _).2 ((hquiet .reject).mono ?_ fun _ _ h => h)
  rintro - _ rfl
  refine (obeys_bind _ _).2 ((hquiet (.read rfl)).mono ?_ fun _ _ h => h)
  rintro session _ rfl
  refine (obeys_bind _ _).2 ((hquiet .check).mono ?_ fun _ _ h => h)
  rintro - _ rfl
  refine (obeys_bind _ _).2 (obeys_check.2 ⟨fun _ _ => trivial, fun claims' hclaims => ?_⟩)
  have hok : claims = .ok claims' := by
    cases claims with
    | ok c => exact congrArg Except.ok (Except.ok.inj hclaims)
    | error e => cases hclaims
  obtain ⟨rfl, rfl⟩ := hsame claims' hok
  split
  · -- a session that links an account
    refine (obeys_bind _ _).2 ((hquiet (.read rfl)).mono ?_ fun _ _ h => h)
    rintro found _ rfl
    refine (obeys_bind _ _).2 ((hquiet .orThrow).mono ?_ fun _ _ h => h)
    rintro user _ rfl
    refine (obeys_bind _ _).2 ((obeys_linkOidc (.inl rfl)).mono ?_ fun _ _ h => h)
    rintro - _ rfl
    exact obeys_linked (.bind (only_applyGroupRole user _ _ (by decide)) fun _ =>
      .bind (.ask (within_of_some rfl (by decide))) fun _ => .bind (only_logIn sid user.id (by decide)) fun _ => .pure)
  · refine (obeys_bind _ _).2 ((hquiet (.read rfl)).mono ?_ fun _ _ h => h)
    rintro found _ rfl
    match found with
    | some user =>
      exact obeys_linked (.bind (only_applyGroupRole user _ _ (by decide)) fun _ =>
        .bind (only_logIn sid user.id (by decide)) fun _ => .pure)
    | none => exact obeys_oidcFirstLogin sid cfg claims' id ⟨rfl, rfl⟩

theorem obeys_serveCallback (c : Callback issuer sub) : (serveCallback env c).Obeys (oidcProtocol issuer sub)
    (fun _ _ => True) 0 :=
  Prog.Obeys.mono (obeys_oidcCallback c.sid c.state c.claims c.id c.same) fun _ _ _ => trivial

end

/-! ## One account -/

/-- Who has been inserted is linked, or owed. -/
structure OidcBooks (issuer sub : Text) (s : OidcWorld) (g : Multiset Uuid) : Prop where
  atMostOne : s.created.length ≤ 1
  inserted : ∀ id ∈ g, id ∈ s.created
  linked : ∀ id ∈ s.created, s.server.linked issuer sub = some id ∨ id ∈ g

section

variable {env : Env} {mayFail : Op → Prop} {issuer sub : Text} {s s' : OidcWorld} {g f : Multiset Uuid} {op : Op}
  {r : op.Res}

theorem eq_of_length_le_one {ids : List Uuid} {a b : Uuid} (h : ids.length ≤ 1) (ha : a ∈ ids) (hb : b ∈ ids) :
    a = b := by
  match ids, h with
  | [id], _ => exact (List.mem_singleton.1 ha).trans (List.mem_singleton.1 hb).symm

/-- A user is inserted, while nothing is linked and nothing owed: it is the first. -/
theorem OidcBooks.insert (h : OidcBooks issuer sub s (g + f)) (hg : g = 0) (hf : f = 0)
    (hunlinked : s.server.linked issuer sub = none) (harea : op.area ≠ some .identities)
    (hexec : execOidc mayFail s op r s') : OidcBooks issuer sub s' (createdBy op r + (g + f)) := by
  subst hg hf
  have hnone : s.created = [] := List.eq_nil_iff_forall_not_mem.2 fun id hid => by
    rcases h.linked id hid with hlinked | howed
    · rw [hunlinked] at hlinked
      cases hlinked
    · exact Multiset.notMem_zero id howed
  have hcreated : s'.created = createdBy op r := by rw [hexec.2, hnone, List.append_nil]
  have hone : (createdBy op r).length ≤ 1 := by
    unfold createdBy
    split <;> simp
  refine ⟨hcreated ▸ hone, fun id hid => ?_, fun id hid => .inr ?_⟩
  · rw [hcreated]
    simpa using hid
  · rw [hcreated] at hid
    simpa using hid

/-- The identity is linked to a user who is owed, or nobody is who has been inserted. -/
theorem OidcBooks.link {id : Uuid} (h : OidcBooks issuer sub s (g + f)) (hg : g = 0 ∨ g = {id})
    (hold : ∀ old ∈ s.created, s.server.linked issuer sub = some old → id = old)
    (hcreated : s'.created = s.created) (hlinked : s'.server.linked issuer sub = some id) :
    OidcBooks issuer sub s' (g.erase id + f) := by
  refine ⟨hcreated ▸ h.atMostOne, fun other hother => ?_, fun other hother => ?_⟩
  · rw [hcreated]
    refine h.inserted other ?_
    rcases Multiset.mem_add.1 hother with hmem | hmem
    · exact Multiset.mem_add.2 (.inl (Multiset.mem_of_mem_erase hmem))
    · exact Multiset.mem_add.2 (.inr hmem)
  · rw [hcreated] at hother
    rw [hlinked]
    rcases hg with rfl | rfl
    · rcases h.linked other hother with hother' | hother'
      · exact .inl (congrArg some (hold other hother hother'))
      · exact .inr (by simpa using hother')
    · -- the one who is owed is the only one
      have hid : id ∈ s.created := h.inserted id (Multiset.mem_add.2 (.inl (Multiset.mem_singleton_self id)))
      exact .inl (congrArg some (eq_of_length_le_one h.atMostOne hid hother))

/-- **A step**, of what a callback may perform. -/
theorem OidcBooks.step (h : OidcBooks issuer sub s (g + f)) (hmay : MayOidc issuer sub g op)
    (horderly : Orderly issuer sub s f op) (hexec : execOidc mayFail s op r s') :
    OidcBooks issuer sub s' (owed g op r + f) := by
  by_cases harea : op.area = some .identities
  · cases op with
    | linkOidc i sub' id =>
      obtain ⟨rfl, rfl, hg⟩ := hmay.links i sub' id rfl
      obtain ⟨hanswer | ⟨-, hfails⟩, hcreated⟩ := hexec
      · obtain rfl : r = .ok () := (congrArg Prod.fst hanswer).trans (answer_linkOidc _ _ _ _)
        have hserver : s'.server = (answer s.server (.linkOidc i sub' id)).2 := congrArg Prod.snd hanswer
        exact h.link hg (horderly.links id rfl) hcreated (hserver ▸ linked_linkOidc _ _ _ _)
      · -- nothing has happened, and the user is still owed
        obtain ⟨w', created⟩ := s'
        obtain rfl : created = s.created := hcreated
        cases hfails with
        | statement =>
          rw [show owed g (.linkOidc i sub' id) (.error _) = g from zero_add g]
          exact ⟨h.atMostOne, h.inserted, h.linked⟩
    | storage op => cases op <;> cases harea
    | _ => cases harea
  · by_cases hinserts : op.inserts.isSome
    · obtain ⟨hunlinked, hf⟩ := horderly.inserts hinserts
      have howed : owed g op r = createdBy op r + g := by
        cases op <;> first | rfl | exact absurd rfl harea
      rw [howed, add_assoc]
      exact h.insert (hmay.inserts hinserts) hf hunlinked harea hexec
    · have hinserts : op.inserts = none := Option.not_isSome_iff_eq_none.1 hinserts
      have hcreated : s'.created = s.created := by rw [hexec.2, createdBy_eq_nil hinserts, List.nil_append]
      have howed : owed g op r = g := by
        cases op <;> first | exact zero_add g | exact absurd rfl harea | cases hinserts
      rw [howed]
      refine ⟨hcreated ▸ h.atMostOne, fun id hid => hcreated ▸ h.inserted id hid, fun id hid => ?_⟩
      rw [exec_linked hexec.1 harea]
      exact h.linked id (hcreated ▸ hid)

end

/-- **One account**, in every run of orderly steps. -/
theorem oneAccount_of_orderly {env : Env} {mayFail : Op → Prop} {issuer sub : Text} {w₀ : World}
    {p : OidcPool issuer sub} (hp : OrderlyReached env mayFail w₀ p) : OneAccount p := by
  have hbooks : OidcBooks issuer sub p.shared (Tracked.total p.threads) := by
    have hstart : OidcBooks issuer sub ⟨w₀, []⟩ 0 :=
      ⟨Nat.zero_le 1, fun id hid => absurd hid (Multiset.notMem_zero id), fun id hid => absurd hid List.not_mem_nil⟩
    have hcode : ∀ c : Callback issuer sub, (serveCallback env c).Obeys (oidcProtocol issuer sub) (fun _ _ => True) 0 :=
      obeys_serveCallback
    refine (hp.invariant hstart hcode ?_ ?_).1
    · exact fun _ _ _ _ _ _ _ hmay hinv horderly hexec => ⟨trivial, hinv.step hmay horderly hexec⟩
    · rintro s g f rfl hinv
      rwa [zero_add] at hinv
  refine ⟨hbooks.atMostOne, fun hended id hid => ?_⟩
  rcases hbooks.linked id hid with hlinked | howed
  · exact hlinked
  · rw [hended] at howed
    exact absurd howed (Multiset.notMem_zero id)

/-! ### Runs -/

/-- A session that the provider has sent back. -/
def returnedSession : Session :=
  { Session.fresh with oidcCsrf := some [], oidcVerifier := some [], oidcNonce := some [] }

/-- An instance with no account, where anybody may log in through the provider. -/
def openInstance : World where
  __ := World.empty
  config := { InstanceConfig.default with allowOidc := true }
  sessions := fun _ => returnedSession

/-- A callback of the identity. -/
def callbackFor (sid : SessionId) (id : Uuid) : Callback ['i'] ['s'] where
  sid := sid
  state := []
  claims := .ok ⟨['i'], ['s'], none, []⟩
  id := id
  same := by
    rintro c ⟨⟩
    exact ⟨rfl, rfl⟩

/-- An operation that fails or does not. -/
def answerOidc (fails : Bool) (s : OidcWorld) (op : Op) : op.Res × OidcWorld :=
  if fails then (.error (.sql .rowNotFound), ⟨s.server, createdBy op (.error (.sql .rowNotFound)) ++ s.created⟩)
  else ((answer s.server op).1, ⟨(answer s.server op).2, createdBy op (answer s.server op).1 ++ s.created⟩)

theorem execOidc_answerOidc (fails : Bool) (s : OidcWorld) (op : Op) :
    execOidc (fun _ => True) s op (answerOidc fails s op).1 (answerOidc fails s op).2 := by
  cases fails with
  | true => exact ⟨.inr ⟨trivial, .statement op _⟩, rfl⟩
  | false => exact ⟨exec_answer _ _ _, rfl⟩

/-- Play a schedule. -/
def playOidc (turns : List (Tracked.Turn (Callback ['i'] ['s']) Bool)) : OidcPool ['i'] ['s'] :=
  Tracked.play owed (serveCallback .plain) answerOidc ⟨openInstance, []⟩ turns

/-- The step is in order. -/
def isOrderly (s : OidcWorld) (f : Multiset Uuid) (op : Op) : Bool :=
  (op.inserts.isNone || (s.server.linked ['i'] ['s'] = none && f = 0)) &&
  match op with
  | .linkOidc _ _ id => s.created.all fun old => s.server.linked ['i'] ['s'] ≠ some old || id = old
  | _ => true

/-- One callback after another; the second finds the account of the first. -/
def twoCallbacks : List (Tracked.Turn (Callback ['i'] ['s']) Bool) :=
  .spawn (callbackFor 0 1) :: List.replicate 10 (.act 0 false) ++
    .spawn (callbackFor 1 2) :: List.replicate 4 (.act 0 false) ++ [.leave 1, .leave 0]

theorem oneAccount_of_orderly_twoCallbacks : (playOidc twoCallbacks).shared.created = [1] ∧
    (playOidc twoCallbacks).shared.server.linked ['i'] ['s'] = some 1 ∧ OneAccount (playOidc twoCallbacks) := by
  have hrun : OrderlyReached .plain (fun _ => True) openInstance (playOidc twoCallbacks) := by
    have hok : Tracked.playOk owed (serveCallback .plain) answerOidc (fun _ s _ f op => isOrderly s f op)
        (fun _ g => g = 0) ⟨⟨openInstance, []⟩, []⟩ twoCallbacks = true := by rfl
    refine Tracked.reachable_play ?_ (fun _ _ h => of_decide_eq_true h) _ _ hok
    intro fails s g f op hok
    obtain ⟨hinserts, hlinks⟩ := Bool.and_eq_true_iff.1 hok
    refine ⟨⟨fun hop => ?_, ?_⟩, execOidc_answerOidc fails s op⟩
    · rw [Option.isNone_eq_false_iff.2 hop, Bool.false_or, Bool.and_eq_true, decide_eq_true_eq,
        decide_eq_true_eq] at hinserts
      exact hinserts
    · rintro id rfl old hold hlinked
      simpa [hlinked] using List.all_eq_true.1 hlinks old hold
  exact ⟨by rfl, by rfl, oneAccount_of_orderly hrun⟩

/-- Two callbacks that both find no account. -/
def raceCallbacks : List (Tracked.Turn (Callback ['i'] ['s']) Bool) :=
  .spawn (callbackFor 0 1) :: .spawn (callbackFor 1 2) :: List.replicate 3 (.act 0 false) ++
    List.replicate 10 (.act 1 false) ++ List.replicate 8 (.act 0 false) ++ [.leave 1, .leave 0]

/-- A callback whose link fails. -/
def lostLink : List (Tracked.Turn (Callback ['i'] ['s']) Bool) :=
  .spawn (callbackFor 0 1) :: List.replicate 7 (.act 0 false) ++ [.act 0 true, .leave 0]

/-- A race makes two accounts, and a link that fails leaves an account that nobody can log into. -/
theorem race_disagrees : openInstance.linked ['i'] ['s'] = none ∧ ∀ turns ∈ [raceCallbacks, lostLink],
    Tracked.Reachable owed (fun _ _ _ _ => True) (fun _ _ => True) (serveCallback .plain) (execOidc fun _ => True)
      ⟨openInstance, []⟩ (playOidc turns) ∧ ¬ OneAccount (playOidc turns) := by
  have hrun : ∀ turns, Tracked.playOk owed (serveCallback .plain) answerOidc (fun _ _ _ _ _ => true) (fun _ _ => true)
      ⟨⟨openInstance, []⟩, []⟩ turns = true → Tracked.Reachable owed (fun _ _ _ _ => True) (fun _ _ => True)
        (serveCallback .plain) (execOidc fun _ => True) ⟨openInstance, []⟩ (playOidc turns) := fun turns hok =>
    Tracked.reachable_play (fun fails s _ _ op _ => ⟨trivial, execOidc_answerOidc fails s op⟩) (fun _ _ _ => trivial)
      _ _ hok
  refine ⟨by rfl, fun turns hturns => ?_⟩
  rcases List.mem_pair.1 hturns with rfl | rfl
  · refine ⟨hrun _ (by rfl), fun hone => ?_⟩
    have hcreated : (playOidc raceCallbacks).shared.created = [2, 1] := by rfl
    have hone := hone.atMostOne
    rw [hcreated] at hone
    exact absurd hone (by decide)
  · refine ⟨hrun _ (by rfl), fun hone => ?_⟩
    have hlinked := hone.linked (by rfl) 1 (List.mem_singleton_self _)
    have hnone : (playOidc lostLink).shared.server.linked ['i'] ['s'] = none := by rfl
    rw [hnone] at hlinked
    cases hlinked

end Server
end Uwuubox

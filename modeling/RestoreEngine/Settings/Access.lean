import RestoreEngine.Model.Sessions
import RestoreEngine.Sources.Resave

/-!
# Who gets in

Whatever requests the clients send, in any order and with any of the cookies they have been given:
a protected handler runs only for a client that has logged in with the password of the configuration
or that presents one of its API tokens, a viewer's only for methods that change nothing; and since
no request changes the block `ui`, the password and the tokens are those that the server began with.

The invariant is about the cookies: one that says *logged in* has been given to a client that has
logged in, one that says *verified* to a client that has passed the check of the credentials.
-/

namespace RestoreEngine

open Effects

variable {Client : Type} {abc : Letters} {cfg : Settings} {ui : UiEntry}

/-- An exchange with the API. -/
abbrev UiExchange (Client : Type) := Exchange (UiState Client) (UiRequest Client) UiReply

/-! ### What entitles a client -/

/-- The client has logged in. -/
def LoggedIn (ui : UiEntry) (past : List (UiExchange Client)) (client : Client) : Prop :=
  ui.password ≠ "" ∧ ∃ l ∈ past, l.request.client = client ∧
    l.request.endpoint = .authLogin ui.password

/-- The client has passed the check of the credentials, which it was let in for. -/
def PassedCheck (past : List (UiExchange Client)) (client : Client) : Prop :=
  ∃ l ∈ past, l.request.client = client ∧
    l.request.endpoint = .completeCredentialsCheck true ∧ l.reply.actor.isSome

/-- The request presents a token of the configuration, and with a viewer's a safe method. -/
def Presents (ui : UiEntry) (req : UiRequest Client) (actor : AuthActor) : Prop :=
  ∃ entry ∈ ui.apiTokens, ∃ token, bearerToken req.authorization = some token ∧
    entry.Expects (Text.strip token) ∧ actor = entry.actor ∧
    (actor.role = .viewer → req.endpoint.method.Safe)

/-- **What an exchange keeps to**, after those of the past. -/
structure Vetted (ui : UiEntry) (past : List (UiExchange Client)) (e : UiExchange Client) :
    Prop where
  /-- Who is let in is entitled to it. -/
  entitled : ∀ actor, e.reply.actor = some actor →
    actor = .uiSession ∧ LoggedIn ui past e.request.client ∨ Presents ui e.request actor
  /-- Who is not let in gets an error, and changes nothing. -/
  refused : e.request.endpoint.isProtected → e.reply.actor = none →
    e.after.settings = e.before.settings ∧ ∃ status ∈ [401, 403], ∃ detail,
      e.reply.body = .error (.httpException status detail)
  /-- Only an operator changes the configuration. -/
  edited : e.after.settings ≠ e.before.settings →
    ∃ actor, e.reply.actor = some actor ∧ actor.role = .operator
  /-- Nobody changes the password or the tokens. -/
  ui_kept : e.after.settings.ui = ui
  /-- The page shows *authenticated* to who has logged in, *verified* to who has passed the check.
  -/
  status : ∀ authenticated verified, e.reply.body = .ok (.status authenticated verified) →
    (authenticated → LoggedIn ui past e.request.client) ∧
    (verified → PassedCheck past e.request.client)

/-! ### The dependency -/

private theorem matchApiToken_some {token : String} {actor : AuthActor}
    (h : matchApiToken ui token = some actor) :
    ∃ entry ∈ ui.apiTokens, entry.Expects (Text.strip token) ∧ actor = entry.actor := by
  simp only [matchApiToken] at h
  split_ifs at h with hempty
  obtain ⟨entry, hfind, rfl⟩ := Option.map_eq_some_iff.mp h
  have hexpects := List.find?_some hfind
  exact ⟨entry, List.mem_of_find?_eq_some hfind, of_decide_eq_true hexpects, rfl⟩

private theorem requireUiSession_ok {session : Session} {authorization : String} {method : Method}
    {actor : AuthActor} (h : requireUiSession ui session authorization method = .ok actor) :
    actor = .uiSession ∧ session.uiAuthenticated = true ∨
      ∃ entry ∈ ui.apiTokens, ∃ token, bearerToken authorization = some token ∧
        entry.Expects (Text.strip token) ∧ actor = entry.actor ∧
        (actor.role = .viewer → method.Safe) := by
  rw [requireUiSession] at h
  split_ifs at h with hsession
  · obtain rfl := Except.ok.inj h
    exact .inl ⟨rfl, hsession⟩
  · cases hmatch : (bearerToken authorization).bind (matchApiToken ui) with
    | none => simp [hmatch] at h
    | some found =>
      simp only [hmatch] at h
      split_ifs at h with hviewer
      obtain rfl := Except.ok.inj h
      obtain ⟨token, htoken, hfound⟩ := Option.bind_eq_some_iff.mp hmatch
      obtain ⟨entry, hentry, hexpects, hactor⟩ := matchApiToken_some hfound
      refine .inr ⟨entry, hentry, token, htoken, hexpects, hactor, fun hrole => ?_⟩
      by_contra hmethod
      exact hviewer ⟨hrole, hmethod⟩

private theorem requireUiSession_error {session : Session} {authorization : String}
    {method : Method} {e : Exn} (h : requireUiSession ui session authorization method = .error e) :
    ∃ status ∈ [401, 403], ∃ detail, e = .httpException status detail := by
  rw [requireUiSession] at h
  split_ifs at h with hsession
  cases hmatch : (bearerToken authorization).bind (matchApiToken ui) with
  | none =>
    simp only [hmatch] at h
    exact ⟨401, by simp, _, (Except.error.inj h).symm⟩
  | some found =>
    simp only [hmatch] at h
    split_ifs at h with hviewer
    exact ⟨403, by simp, _, (Except.error.inj h).symm⟩

variable {past : List (UiExchange Client)} {st : UiState Client} {req : UiRequest Client}

/-- A request that is refused is one for a protected route. -/
private theorem letIn_error {e : Exn} (h : st.letIn req = .error e) :
    ∃ status ∈ [401, 403], ∃ detail, e = .httpException status detail := by
  rw [UiState.letIn] at h
  split_ifs at h
  cases hrequire : requireUiSession st.settings.ui (st.session req) req.authorization
      req.endpoint.method with
  | error e' =>
    rw [hrequire] at h
    obtain rfl := Except.error.inj h
    exact requireUiSession_error hrequire
  | ok a => simp [hrequire, Except.map] at h

/-! ### The handlers -/

variable {session : Session} {endpoint : Endpoint}

/-- Saving leaves the block `ui` as it is. -/
private theorem putCredentials_ui {saved : Settings} {body : CredentialsPut}
    (h : RestoreEngine.putCredentials abc cfg body = .ok saved) : saved.ui = cfg.ui := by
  obtain ⟨proxmox, -, h⟩ := of_bind_ok h
  obtain ⟨worker, -, h⟩ := of_bind_ok h
  obtain ⟨notifications, -, h⟩ := of_bind_ok h
  obtain rfl := Except.ok.inj h
  rfl

private theorem patchWorker_ui {saved : Settings} {wk : WorkerEntry} {body : WorkerPartial}
    (h : RestoreEngine.patchWorker cfg body = .ok (saved, wk)) : saved.ui = cfg.ui := by
  obtain ⟨wk', -, h⟩ := of_bind_ok h
  obtain ⟨rfl, rfl⟩ := Prod.mk.inj (Except.ok.inj h)
  rfl

/-- A handler leaves the block `ui` as it is. -/
private theorem handle_ui (abc : Letters) (cfg : Settings) (session : Session)
    (endpoint : Endpoint) : (handle abc cfg session endpoint).settings.ui = cfg.ui := by
  cases endpoint with
  | authLogin password =>
    simp only [handle, authLogin]
    split_ifs <;> rfl
  | putCredentials body =>
    rw [handle]
    cases hsaved : RestoreEngine.putCredentials abc cfg body with
    | error e => rfl
    | ok saved => exact putCredentials_ui hsaved
  | patchWorker body =>
    rw [handle]
    cases hsaved : RestoreEngine.patchWorker cfg body with
    | error e => rfl
    | ok saved => exact patchWorker_ui hsaved
  | _ => rfl

/-- Only the two routes that save change the configuration, and neither is safe. -/
private theorem handle_settings
    (h : (handle abc cfg session endpoint).settings ≠ cfg) :
    endpoint.isProtected = true ∧ ¬ endpoint.method.Safe := by
  cases endpoint with
  | authLogin password =>
    refine absurd ?_ h
    simp only [handle, authLogin]
    split_ifs <;> rfl
  | putCredentials body => exact ⟨rfl, (by decide : ¬ Method.put.Safe)⟩
  | patchWorker body => exact ⟨rfl, (by decide : ¬ Method.patch.Safe)⟩
  | _ => exact absurd rfl h

/-- A session says *logged in* if it did so before, or by the login. -/
private theorem handle_authenticated
    (h : (handle abc cfg session endpoint).session.uiAuthenticated = true) :
    session.uiAuthenticated = true ∨
      cfg.ui.password ≠ "" ∧ endpoint = .authLogin cfg.ui.password := by
  cases endpoint with
  | authLogin password =>
    simp only [handle, authLogin] at h
    split_ifs at h with hempty hunset hwrong
    · exact .inl h
    · exact .inl h
    · exact .inl h
    · rw [not_not] at hwrong
      subst hwrong
      exact .inr ⟨hunset, rfl⟩
  | putCredentials body =>
    rw [handle] at h
    split at h <;> exact .inl h
  | patchWorker body =>
    rw [handle] at h
    split at h <;> exact .inl h
  | authLogout => cases h
  | _ => exact .inl h

/-- A session says *verified* if it did so before, or by a check that was passed. -/
private theorem handle_verified
    (h : (handle abc cfg session endpoint).session.credentialsVerified = some true) :
    session.credentialsVerified = some true ∨ endpoint = .completeCredentialsCheck true := by
  cases endpoint with
  | authLogin password =>
    simp only [handle, authLogin] at h
    split_ifs at h <;> exact .inl h
  | completeCredentialsCheck ok =>
    simp only [handle, completeCredentialsCheck] at h
    split_ifs at h with hok
    subst hok
    exact .inr rfl
  | putCredentials body =>
    rw [handle] at h
    split at h <;> exact .inl h
  | patchWorker body =>
    rw [handle] at h
    split at h <;> exact .inl h
  | authLogout => cases h
  | reopenCredentials => cases h
  | _ => exact .inl h

/-- The status is that of the session. -/
private theorem handle_status {authenticated verified : Bool}
    (h : (handle abc cfg session endpoint).body = .ok (.status authenticated verified)) :
    (authenticated = true → session.uiAuthenticated = true) ∧
      (verified = true → session.credentialsVerified = some true) := by
  cases endpoint with
  | authStatus =>
    simp only [handle, Except.ok.injEq, UiBody.status.injEq] at h
    obtain ⟨rfl, rfl⟩ := h
    exact ⟨id, fun h => by simpa using And.right (by simpa using h)⟩
  | authLogin password =>
    simp only [handle, authLogin] at h
    split_ifs at h
    simp at h
  | getCredentials =>
    simp only [handle] at h
    cases hview : RestoreEngine.getCredentials cfg <;> simp [hview, Except.map] at h
  | completeCredentialsCheck ok => simp [handle, completeCredentialsCheck] at h
  | putCredentials body =>
    rw [handle] at h
    split at h <;> simp at h
  | patchWorker body =>
    rw [handle] at h
    split at h
    · rename_i wk _
      cases hview : viewWorker wk <;> simp [hview, Except.map] at h
    · simp at h
  | _ => simp [handle] at h

private theorem sentCookie_some {session s : Session} (h : UiState.sentCookie session = some s) :
    session = s := by
  rw [UiState.sentCookie] at h
  split_ifs at h
  exact Option.some.inj h

/-- The cookie that a handler leaves. -/
private def leftCookie (abc : Letters) (st : UiState Client) (req : UiRequest Client) :
    Option Session :=
  let done := handle abc st.settings (st.session req) req.endpoint
  if UiState.crashed done.body then none else UiState.sentCookie done.session

private theorem leftCookie_some {s : Session} (h : leftCookie abc st req = some s) :
    (handle abc st.settings (st.session req) req.endpoint).session = s := by
  simp only [leftCookie] at h
  split_ifs at h
  exact sentCookie_some h

/-! ### The cookies -/

private theorem LoggedIn.append {past : List (UiExchange Client)} {client : Client}
    (h : LoggedIn ui past client) (e : UiExchange Client) : LoggedIn ui (past ++ [e]) client := by
  obtain ⟨hset, l, hl, hlogin⟩ := h
  exact ⟨hset, l, List.mem_append_left _ hl, hlogin⟩

private theorem PassedCheck.append {past : List (UiExchange Client)} {client : Client}
    (h : PassedCheck past client) (e : UiExchange Client) : PassedCheck (past ++ [e]) client := by
  obtain ⟨l, hl, hcheck⟩ := h
  exact ⟨l, List.mem_append_left _ hl, hcheck⟩

/-- **The invariant**: what the cookies say is so. -/
private structure CookiesSound (ui : UiEntry) (past : List (UiExchange Client))
    (st : UiState Client) : Prop where
  ui_kept : st.settings.ui = ui
  loggedIn : ∀ client, ∀ s ∈ st.cookies client, s.uiAuthenticated = true →
    LoggedIn ui past client
  checked : ∀ client, ∀ s ∈ st.cookies client, s.credentialsVerified = some true →
    PassedCheck past client

namespace CookiesSound

/-- The session of a request is empty, or that of a cookie. -/
private theorem session_mem (st : UiState Client) (req : UiRequest Client) :
    st.session req = {} ∨ st.session req ∈ st.cookies req.client := by
  rw [UiState.session]
  split_ifs with hsigned
  · exact .inr hsigned
  · exact .inl rfl

private theorem session_loggedIn (h : CookiesSound ui past st) {req : UiRequest Client}
    (hs : (st.session req).uiAuthenticated = true) : LoggedIn ui past req.client := by
  rcases session_mem st req with hempty | hmem
  · rw [hempty] at hs
    cases hs
  · exact h.loggedIn _ _ hmem hs

private theorem session_checked (h : CookiesSound ui past st) {req : UiRequest Client}
    (hs : (st.session req).credentialsVerified = some true) : PassedCheck past req.client := by
  rcases session_mem st req with hempty | hmem
  · rw [hempty] at hs
    cases hs
  · exact h.checked _ _ hmem hs

variable [DecidableEq Client]

/-- The invariant is kept, if the cookie that is given is sound. -/
private theorem give (h : CookiesSound ui past st) (e : UiExchange Client) {cfg : Settings}
    (hui : cfg.ui = ui) {client : Client} {cookie : Option Session}
    (hlogin : ∀ s, cookie = some s → s.uiAuthenticated = true →
      LoggedIn ui (past ++ [e]) client)
    (hcheck : ∀ s, cookie = some s → s.credentialsVerified = some true →
      PassedCheck (past ++ [e]) client) :
    CookiesSound ui (past ++ [e]) ({ st with settings := cfg }.give client cookie) where
  ui_kept := hui
  loggedIn c s hs hauth := by
    rcases UiState.mem_cookies_give.mp hs with ⟨rfl, hnew⟩ | hold
    · exact hlogin s hnew hauth
    · exact (h.loggedIn c s hold hauth).append e
  checked c s hs hverified := by
    rcases UiState.mem_cookies_give.mp hs with ⟨rfl, hnew⟩ | hold
    · exact hcheck s hnew hverified
    · exact (h.checked c s hold hverified).append e

end CookiesSound

/-! ### Every exchange -/

variable [DecidableEq Client]

/-- The one exchange that a refused request leads to. -/
private theorem answer_refused {e : Exn} (h : st.letIn req = .error e) :
    st.answer abc req = (st.give req.client (UiState.sentCookie (st.session req)),
      ⟨none, .error e, UiState.sentCookie (st.session req)⟩) := by
  rw [UiState.answer, h]

/-- The one exchange that a request leads to which is let in. -/
private theorem answer_handled {actor : Option AuthActor} (h : st.letIn req = .ok actor) :
    st.answer abc req =
      ({ st with settings := (handle abc st.settings (st.session req) req.endpoint).settings }.give
        req.client (leftCookie abc st req),
        ⟨actor, (handle abc st.settings (st.session req) req.endpoint).body,
          leftCookie abc st req⟩) := by
  rw [UiState.answer, h]
  rfl

/-- The exchange of a request that is refused. -/
private theorem CookiesSound.refused (h : CookiesSound ui past st) {exn : Exn}
    (hletin : st.letIn req = .error exn) :
    Vetted ui past ((uiServer Client abc).exchange st req) ∧
      CookiesSound ui (past ++ [(uiServer Client abc).exchange st req])
        ((uiServer Client abc).exchange st req).after := by
  set e := (uiServer Client abc).exchange st req with he
  have hreply : e.reply = (st.answer abc req).2 := rfl
  have hafter : e.after = (st.answer abc req).1 := rfl
  rw [answer_refused hletin] at hreply hafter
  obtain ⟨status, hstatus, detail, rfl⟩ := letIn_error hletin
  refine ⟨⟨?_, ?_, ?_, ?_, ?_⟩, ?_⟩
  · intro actor hactor
    rw [hreply] at hactor
    cases hactor
  · intro _ _
    exact ⟨by rw [hafter]; rfl, status, hstatus, detail, by rw [hreply]⟩
  · intro hne
    exact absurd (by rw [hafter]; rfl) hne
  · rw [hafter]
    exact h.ui_kept
  · intro authenticated verified hbody
    rw [hreply] at hbody
    cases hbody
  · -- the cookie, if any, is one that the client has sent
    rw [hafter]
    refine h.give e h.ui_kept (fun s hs hauth => ?_) (fun s hs hverified => ?_)
    · rw [← sentCookie_some hs] at hauth
      exact (h.session_loggedIn hauth).append e
    · rw [← sentCookie_some hs] at hverified
      exact (h.session_checked hverified).append e

/-- The exchange of a request that is let in. -/
private theorem CookiesSound.handled (h : CookiesSound ui past st) {actor : Option AuthActor}
    (hletin : st.letIn req = .ok actor) :
    Vetted ui past ((uiServer Client abc).exchange st req) ∧
      CookiesSound ui (past ++ [(uiServer Client abc).exchange st req])
        ((uiServer Client abc).exchange st req).after := by
  set e := (uiServer Client abc).exchange st req with he
  have hreply : e.reply = (st.answer abc req).2 := rfl
  have hafter : e.after = (st.answer abc req).1 := rfl
  rw [answer_handled hletin] at hreply hafter
  have hui : st.settings.ui = ui := h.ui_kept
  have hkept := (handle_ui abc st.settings (st.session req) req.endpoint).trans hui
  refine ⟨⟨?_, ?_, ?_, ?_, ?_⟩, ?_⟩
  · -- who is let in has logged in, or presents a token
    intro a ha
    rw [hreply] at ha
    obtain rfl : actor = some a := ha
    rcases UiState.letIn_ok hletin with ⟨-, hnone⟩ | ⟨b, hb, hrequire⟩
    · cases hnone
    · obtain rfl := Option.some.inj hb
      rw [hui] at hrequire
      rcases requireUiSession_ok hrequire with ⟨rfl, hauth⟩ | hpresents
      · exact .inl ⟨rfl, h.session_loggedIn hauth⟩
      · exact .inr hpresents
  · -- without an actor the endpoint is open
    intro hprotected hnone
    rw [hreply] at hnone
    rcases UiState.letIn_ok hletin with ⟨hopen, -⟩ | ⟨b, rfl, -⟩
    · rw [show e.request = req from rfl, hopen] at hprotected
      cases hprotected
    · cases hnone
  · -- only an operator has changed the settings
    intro hne
    rw [hafter] at hne
    obtain ⟨hprotected, hmethod⟩ := handle_settings hne
    rcases UiState.letIn_ok hletin with ⟨hopen, -⟩ | ⟨a, rfl, hrequire⟩
    · rw [hopen] at hprotected
      cases hprotected
    · refine ⟨a, by rw [hreply], ?_⟩
      rcases requireUiSession_ok hrequire with ⟨rfl, -⟩ | ⟨entry, -, token, -, -, -, hsafe⟩
      · rfl
      · -- a viewer would have had to use a safe method
        cases hrole : a.role with
        | operator => rfl
        | viewer => exact absurd (hsafe hrole) hmethod
  · rw [hafter]
    exact hkept
  · intro authenticated verified hbody
    rw [hreply] at hbody
    obtain ⟨hauth, hverified⟩ := handle_status hbody
    exact ⟨fun h' => h.session_loggedIn (hauth h'), fun h' => h.session_checked (hverified h')⟩
  · -- the cookie says what the last one said, or what has just been checked
    rw [hafter]
    refine h.give e hkept (fun s hs hauth => ?_) (fun s hs hverified => ?_)
    · rw [← leftCookie_some hs] at hauth
      rcases handle_authenticated hauth with hbefore | ⟨hset, hlogin⟩
      · exact (h.session_loggedIn hbefore).append e
      · rw [hui] at hset hlogin
        exact ⟨hset, e, by simp, rfl, hlogin⟩
    · rw [← leftCookie_some hs] at hverified
      rcases handle_verified hverified with hbefore | hcheck
      · exact (h.session_checked hbefore).append e
      · rcases UiState.letIn_ok hletin with ⟨hopen, -⟩ | ⟨a, rfl, -⟩
        · rw [hcheck] at hopen
          cases hopen
        · exact ⟨e, by simp, rfl, hcheck, by rw [hreply]; rfl⟩

/-- **One exchange** is vetted and keeps the invariant. -/
private theorem CookiesSound.exchange (h : CookiesSound ui past st) (req : UiRequest Client) :
    Vetted ui past ((uiServer Client abc).exchange st req) ∧
      CookiesSound ui (past ++ [(uiServer Client abc).exchange st req])
        ((uiServer Client abc).exchange st req).after := by
  cases hletin : st.letIn req with
  | error exn => exact h.refused hletin
  | ok actor => exact h.handled hletin

/-- The server when nobody has been there. -/
def UiState.fresh (Client : Type) (cfg : Settings) : UiState Client := ⟨cfg, fun _ => []⟩

/-- **Who gets in**: in every sequence of requests every exchange keeps to the password and the
tokens that the configuration has at the beginning. -/
theorem access_entitled (abc : Letters) (cfg : Settings) (reqs : List (UiRequest Client))
    {past later : List (UiExchange Client)} {e : UiExchange Client}
    (h : (uiServer Client abc).serve (.fresh Client cfg) reqs = past ++ e :: later) :
    Vetted cfg.ui past e := by
  have hinit : CookiesSound cfg.ui [] (UiState.fresh Client cfg) :=
    ⟨rfl, fun client s hs => absurd hs (by simp [UiState.fresh]),
      fun client s hs => absurd hs (by simp [UiState.fresh])⟩
  exact Server.serve_sound hinit (fun past st req hst => hst.exchange req) h

/-- A configuration with a password and the token of a viewer. -/
private def guardedSettings : Settings where
  ui := { password := "hunter2", apiTokens := [{ token := "t0k", role := "Viewer" }] }

/-- A client logs in. -/
private def loginExchange : UiExchange ℕ :=
  (uiServer ℕ .ascii).exchange (.fresh ℕ guardedSettings)
    { client := 1, endpoint := .authLogin "hunter2" }

/-- With the cookie that it has been given it reads the credentials. -/
private def readExchange : UiExchange ℕ :=
  (uiServer ℕ .ascii).exchange loginExchange.after
    { client := 1, endpoint := .getCredentials, cookie := { uiAuthenticated := true } }

/-- A client without a session presents the token of the viewer, but not with a safe method. -/
private def writeExchange : UiExchange ℕ :=
  (uiServer ℕ .ascii).exchange readExchange.after
    { client := 2, endpoint := .putCredentials {}, authorization := "bearer t0k",
      cookie := { uiAuthenticated := true } }

theorem access_entitled_login :
    readExchange.reply.actor = some .uiSession ∧ writeExchange.reply.actor = none ∧
      Vetted guardedSettings.ui [loginExchange] readExchange ∧
      Vetted guardedSettings.ui [loginExchange, readExchange] writeExchange := by
  have hserved : (uiServer ℕ .ascii).serve (.fresh ℕ guardedSettings)
      [loginExchange.request, readExchange.request, writeExchange.request] =
        [loginExchange, readExchange, writeExchange] := rfl
  refine ⟨by decide +kernel, by decide +kernel, ?_, ?_⟩
  · exact access_entitled .ascii guardedSettings _ hserved
  · exact access_entitled .ascii guardedSettings _ hserved

end RestoreEngine

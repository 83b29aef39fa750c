import RestoreEngine.Effects.Server
import RestoreEngine.Model.Settings

/-!
# `ui.py` and `main.py`: who is let in

Every route under `/api` but the login and its status asks `requireUiSession` first: the client has
a session in which it has logged in, or presents an API token of the configuration, which is read
anew each time. The session is a signed cookie, kept by the client. A client may send any cookie
that it has been given, however old; one that the server has not signed for it counts as no cookie.

The settings page changes the configuration; the other routes that are protected (`engine`) change
neither it nor the session, and what they do is the matter of other modules. So is what the routes
that probe the cluster find out: the outcome of the check of the credentials comes with the request.
-/

namespace RestoreEngine

open Effects

/-! ### API tokens -/

/-- `role`. -/
inductive Role
  | operator
  | viewer
  deriving DecidableEq

/-- Whom a request is from: `auth_actor`. -/
inductive AuthActor
  | uiSession
  | token (name : String) (role : Role)
  deriving DecidableEq

/-- `auth_role`. -/
def AuthActor.role : AuthActor → Role
  | uiSession => .operator
  | token _ role => role

/-- The role of an entry: any but `viewer` counts as `operator`. -/
def TokenEntry.effectiveRole (entry : TokenEntry) : Role :=
  if Text.lower (Text.strip entry.role) = "viewer" then .viewer else .operator

/-- The name of an entry. -/
def TokenEntry.effectiveName (entry : TokenEntry) : String :=
  let name := Text.strip (if entry.name = "" then "api" else entry.name)
  if name = "" then "api" else name

/-- The entry is for this token. -/
def TokenEntry.Expects (entry : TokenEntry) (token : String) : Prop :=
  Text.strip entry.token ≠ "" ∧ Text.strip entry.token = token

instance (entry : TokenEntry) (token : String) : Decidable (entry.Expects token) :=
  inferInstanceAs (Decidable (_ ∧ _))

/-- Whom an entry is for. -/
def TokenEntry.actor (entry : TokenEntry) : AuthActor :=
  .token entry.effectiveName entry.effectiveRole

/-- **`_match_api_token`.** -/
def matchApiToken (ui : UiEntry) (rawToken : String) : Option AuthActor :=
  let token := Text.strip rawToken
  if token = "" then none
  else (ui.apiTokens.find? fun entry => entry.Expects token).map TokenEntry.actor

/-! ### Sessions -/

/-- The session: what the cookie says. -/
structure Session where
  uiAuthenticated : Bool := false
  credentialsVerified : Option Bool := none
  deriving DecidableEq

/-- The method of a request. -/
inductive Method
  | get
  | head
  | options
  | post
  | put
  | patch
  | delete
  deriving DecidableEq

/-- The methods that a viewer may use. -/
def Method.Safe (method : Method) : Prop := method ∈ [get, head, options]

instance (method : Method) : Decidable method.Safe := inferInstanceAs (Decidable (_ ∈ _))

/-- The token of the header `Authorization`, if it has one. -/
def bearerToken (authorization : String) : Option String :=
  let auth := Text.strip authorization
  if Text.startsWith (Text.lower auth) "bearer " then
    some (Text.strip (String.ofList (auth.toList.drop 7)))
  else none

/-- **`require_ui_session`.** -/
def requireUiSession (ui : UiEntry) (session : Session) (authorization : String)
    (method : Method) : Except Exn AuthActor :=
  if session.uiAuthenticated then .ok .uiSession
  else
    match (bearerToken authorization).bind (matchApiToken ui) with
    | none => .error (.httpException 401 "Not authenticated")
    | some actor =>
      if actor.role = .viewer ∧ ¬ method.Safe then
        .error (.httpException 403 "Viewer API token is read-only")
      else .ok actor

/-! ### Requests -/

/-- The routes, with the bodies they take. -/
inductive Endpoint
  | authStatus
  | authLogin (password : String)
  | authLogout
  /-- The check of the saved credentials, with its outcome. -/
  | completeCredentialsCheck (ok : Bool)
  | reopenCredentials
  | getCredentials
  | putCredentials (body : CredentialsPut)
  | patchWorker (body : WorkerPartial)
  /-- Any other route of the API. -/
  | engine (method : Method)
  /-- `/health`, `/version` and the pages. -/
  | page

namespace Endpoint

/-- The method of a route. -/
def method : Endpoint → Method
  | authStatus | getCredentials | page => .get
  | authLogin _ | authLogout | completeCredentialsCheck _ | reopenCredentials => .post
  | putCredentials _ => .put
  | patchWorker _ => .patch
  | engine method => method

/-- The routes that depend on `require_ui_session`. -/
def isProtected : Endpoint → Bool
  | authStatus | authLogin _ | page => false
  | _ => true

end Endpoint

/-- A request of a client. -/
structure UiRequest (Client : Type) where
  client : Client
  endpoint : Endpoint
  /-- The header `Authorization`, empty if there is none. -/
  authorization : String := ""
  /-- The session of the cookie that is sent, empty if there is none. -/
  cookie : Session := {}

/-- The body of a reply. -/
inductive UiBody
  | status (authenticated credentialsVerified : Bool)
  | ok
  | checked (ok : Bool)
  | credentials (view : CredentialsView)
  | worker (view : WorkerView)
  /-- What comes from elsewhere. -/
  | other

/-- A reply. -/
structure UiReply where
  /-- Whom `require_ui_session` has let in. -/
  actor : Option AuthActor
  body : Except Exn UiBody
  /-- The cookie that is set. -/
  cookie : Option Session

/-- The configuration, and the cookies that have been signed for each client. -/
structure UiState (Client : Type) where
  settings : Settings
  cookies : Client → List Session

/-! ### The handlers -/

/-- What a handler leaves behind, and its reply. -/
structure Handled where
  body : Except Exn UiBody
  settings : Settings
  session : Session

/-- **`auth_login`.** -/
def authLogin (cfg : Settings) (session : Session) (password : String) : Handled :=
  if password = "" then
    -- `LoginBody` asks for a character at least
    ⟨.error (.httpException 422 "String should have at least 1 character"), cfg, session⟩
  else if cfg.ui.password = "" then
    ⟨.error (.httpException 503 "ui.password is not set in config.yaml"), cfg, session⟩
  else if password ≠ cfg.ui.password then
    ⟨.error (.httpException 401 "Invalid password"), cfg, session⟩
  else ⟨.ok .ok, cfg, { session with uiAuthenticated := true }⟩

/-- `complete_credentials_check`. -/
def completeCredentialsCheck (cfg : Settings) (session : Session) (ok : Bool) : Handled :=
  ⟨.ok (.checked ok), cfg,
    { session with credentialsVerified := if ok then some true else none }⟩

/-- The handler of a route. -/
def handle (abc : Letters) (cfg : Settings) (session : Session) : Endpoint → Handled
  | .authStatus =>
    let authed := session.uiAuthenticated
    ⟨.ok (.status authed (authed && session.credentialsVerified = some true)), cfg, session⟩
  | .authLogin password => authLogin cfg session password
  | .authLogout => ⟨.ok .ok, cfg, {}⟩
  | .completeCredentialsCheck ok => completeCredentialsCheck cfg session ok
  | .reopenCredentials => ⟨.ok .ok, cfg, { session with credentialsVerified := some false }⟩
  | .getCredentials => ⟨(RestoreEngine.getCredentials cfg).map .credentials, cfg, session⟩
  | .putCredentials body =>
    match RestoreEngine.putCredentials abc cfg body with
    | .ok saved => ⟨.ok .ok, saved, session⟩
    | .error e => ⟨.error e, cfg, session⟩
  | .patchWorker body =>
    match RestoreEngine.patchWorker cfg body with
    | .ok (saved, wk) => ⟨(viewWorker wk).map .worker, saved, session⟩
    | .error e => ⟨.error e, cfg, session⟩
  | .engine _ => ⟨.ok .other, cfg, session⟩
  | .page => ⟨.ok .other, cfg, session⟩

variable {Client : Type}

namespace UiState

/-- The session of a request: that of its cookie, if the server has signed it. -/
def session (st : UiState Client) (req : UiRequest Client) : Session :=
  if req.cookie ∈ st.cookies req.client then req.cookie else {}

/-- Whom a request is let in as. -/
def letIn (st : UiState Client) (req : UiRequest Client) : Except Exn (Option AuthActor) :=
  if req.endpoint.isProtected then
    (requireUiSession st.settings.ui (st.session req) req.authorization req.endpoint.method).map
      some
  else .ok none

/-- What lets a request in. -/
theorem letIn_ok {st : UiState Client} {req : UiRequest Client} {actor : Option AuthActor}
    (h : st.letIn req = .ok actor) :
    (req.endpoint.isProtected = false ∧ actor = none) ∨
      ∃ a, actor = some a ∧ requireUiSession st.settings.ui (st.session req) req.authorization
        req.endpoint.method = .ok a := by
  rw [UiState.letIn] at h
  split_ifs at h with hprotected
  · cases hrequire : requireUiSession st.settings.ui (st.session req) req.authorization
        req.endpoint.method with
    | error e => simp [hrequire, Except.map] at h
    | ok a =>
      rw [hrequire] at h
      exact .inr ⟨a, (Except.ok.inj h).symm, rfl⟩
  · exact .inl ⟨by simpa using hprotected, (Except.ok.inj h).symm⟩

/-- A session that is not empty goes back as a cookie. -/
def sentCookie (session : Session) : Option Session := if session = {} then none else some session

/-- The handler has raised something that is no HTTP error; such a reply sets no cookie. -/
def crashed : Except Exn UiBody → Bool
  | .error (.httpException _ _) | .ok _ => false
  | .error _ => true

variable [DecidableEq Client]

/-- The client gets a cookie. -/
def give (st : UiState Client) (client : Client) (cookie : Option Session) : UiState Client :=
  { st with
    cookies := Function.update st.cookies client (cookie.toList ++ st.cookies client) }

/-- To give a cookie leaves the configuration as it is. -/
@[simp] theorem settings_give (st : UiState Client) (client : Client)
    (cookie : Option Session) : (st.give client cookie).settings = st.settings := rfl

/-- The cookies of a client are those it had and the one it is given. -/
theorem mem_cookies_give {st : UiState Client} {client c : Client} {cookie : Option Session}
    {s : Session} :
    s ∈ (st.give client cookie).cookies c ↔ (c = client ∧ cookie = some s) ∨ s ∈ st.cookies c := by
  by_cases hc : c = client
  · subst hc
    simp [give]
  · simp [give, hc]

/-- **The server**: the middleware of the sessions, the dependency of the protected routes, and the
handlers. -/
def answer (abc : Letters) (st : UiState Client) (req : UiRequest Client) :
    UiState Client × UiReply :=
  match st.letIn req with
  | .error e =>
    let cookie := sentCookie (st.session req)
    (st.give req.client cookie, ⟨none, .error e, cookie⟩)
  | .ok actor =>
    let done := handle abc st.settings (st.session req) req.endpoint
    let cookie := if crashed done.body then none else sentCookie done.session
    ({ st with settings := done.settings }.give req.client cookie, ⟨actor, done.body, cookie⟩)

end UiState

/-- The server of the API. -/
def uiServer (Client : Type) [DecidableEq Client] (abc : Letters) :
    Server (UiState Client) (UiRequest Client) UiReply := ⟨UiState.answer abc⟩

end RestoreEngine

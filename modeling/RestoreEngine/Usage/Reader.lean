import RestoreEngine.Model.Reader

/-!
# The reader protocol

How the stream of a connection is cut into the data of single calls of `recv` is up to the network.
It makes no difference to the upgrade (`upgrade_settled`): the headers are found, and nothing of
what follows them is lost, whether it was read with them or not. Only if the headers end within 4095
bytes of the limit, and the stream goes on beyond it, the upgrade may be given up or not. Nor does
it make a difference to the response of a download (`response_settled`).
-/

namespace RestoreEngine.PbsWire

open Delivery

/-! ### The upgrade -/

/-- **What an upgrade comes to**, of the stream alone. -/
structure Settled (decode : List UInt8 → String) (stream : List UInt8)
    (outcome : Except Exn ReaderSession) : Prop where
  /-- With room below the limit, the session gets all that follows the headers. -/
  opened : ∀ head rest, cut headersEnd stream = some (head, rest) →
    head.length + headersEnd.length + upgradeRecv ≤ upgradeLimit + 1 ∨
      stream.length ≤ upgradeLimit →
    checkUpgrade decode head = .ok () →
    ∃ session, outcome = .ok session ∧ session.leftover ++ session.unread.flatten = rest
  refused : ∀ head rest exc, cut headersEnd stream = some (head, rest) →
    head.length + headersEnd.length + upgradeRecv ≤ upgradeLimit + 1 ∨
      stream.length ≤ upgradeLimit →
    checkUpgrade decode head = .error exc → outcome = .error exc
  ended : cut headersEnd stream = none → stream.length ≤ upgradeLimit →
    outcome = .error (.runtimeError "EOF during PBS reader upgrade")
  exceeded : cut headersEnd (stream.take upgradeLimit) = none → upgradeLimit < stream.length →
    outcome = .error (.runtimeError "PBS reader upgrade response too large")
  /-- Whatever else, a session has all that follows the headers. -/
  sound : ∀ session, outcome = .ok session → ∃ head rest,
    cut headersEnd stream = some (head, rest) ∧ checkUpgrade decode head = .ok () ∧
      session.leftover ++ session.unread.flatten = rest

section Upgrade

variable {decode : List UInt8 → String} {chunks : List (List UInt8)} {head rest : List UInt8}
  {got : List UInt8 × List (List UInt8)}

variable (decode) in
/-- The end of `_open_reader`, once the loop is over. -/
private theorem openReader_found (hread : readUntil headersEnd upgradeLimit [] chunks = .ok got)
    (hfound : Found headersEnd head rest got) :
    ∃ session : ReaderSession, session.leftover ++ session.unread.flatten = rest ∧
      openReader decode chunks = (checkUpgrade decode head).map fun _ => session := by
  obtain ⟨leftover, hcut, hrest⟩ := hfound
  refine ⟨{ leftover, unread := got.2 }, hrest, ?_⟩
  obtain ⟨buf, unread⟩ := got
  rw [openReader, hread]
  simp only at hcut ⊢
  rw [hcut]
  simp only
  cases checkUpgrade decode head with
  | ok _ => rfl
  | error _ => rfl

private theorem openReader_gave_up {why : GiveUp}
    (hread : readUntil headersEnd upgradeLimit [] chunks = .error why) :
    openReader decode chunks = .error (upgradeError why) := by
  rw [openReader, hread]

variable (decode) in
/-- With room below the limit the loop comes to the end of the headers. -/
private theorem openReader_room (hcut : cut headersEnd chunks.flatten = some (head, rest))
    (hne : ∀ c ∈ chunks, c ≠ []) (hsize : ∀ c ∈ chunks, c.length ≤ upgradeRecv)
    (hroom : head.length + headersEnd.length + upgradeRecv ≤ upgradeLimit + 1 ∨
      chunks.flatten.length ≤ upgradeLimit) :
    ∃ session : ReaderSession, session.leftover ++ session.unread.flatten = rest ∧
      openReader decode chunks = (checkUpgrade decode head).map fun _ => session := by
  have hfinds : ∃ got, readUntil headersEnd upgradeLimit [] chunks = .ok got ∧
      Found headersEnd head rest got := readUntil_mark hcut hne hsize hroom
  obtain ⟨got, hread, hfound⟩ := hfinds
  exact openReader_found decode hread hfound

/-- A session is only opened behind the end of the headers. -/
private theorem cut_of_openReader {session : ReaderSession}
    (h : openReader decode chunks = .ok session) :
    ∃ head rest, cut headersEnd chunks.flatten = some (head, rest) := by
  rcases hcut : cut headersEnd chunks.flatten with - | ⟨head, rest⟩
  · obtain ⟨why, hread⟩ : ∃ why, readUntil headersEnd upgradeLimit [] chunks = .error why :=
      readUntil_of_none hcut
    rw [openReader_gave_up hread] at h
    exact absurd h (by simp)
  · exact ⟨head, rest, rfl⟩

/-- What a session is opened with. -/
private theorem of_openReader {session : ReaderSession} (hne : ∀ c ∈ chunks, c ≠ [])
    (h : openReader decode chunks = .ok session) :
    ∃ head rest, cut headersEnd chunks.flatten = some (head, rest) ∧
      checkUpgrade decode head = .ok () ∧ session.leftover ++ session.unread.flatten = rest := by
  obtain ⟨head, rest, hcut⟩ := cut_of_openReader h
  have hends : (∃ got, readUntil headersEnd upgradeLimit [] chunks = .ok got ∧
      Found headersEnd head rest got) ∨
        readUntil headersEnd upgradeLimit [] chunks = .error .exceeded :=
    readUntil_or hcut hne
  rcases hends with ⟨got, hread, hfound⟩ | hread
  · obtain ⟨opened, hrest, houtcome⟩ := openReader_found decode hread hfound
    rw [houtcome] at h
    rcases hcheck : checkUpgrade decode head with exc | _
    · rw [hcheck] at h
      exact absurd h (by simp [Except.map])
    · rw [hcheck] at h
      obtain rfl : opened = session := by simpa [Except.map] using h
      exact ⟨head, rest, hcut, hcheck, hrest⟩
  · -- a loop that gives up opens nothing
    rw [openReader_gave_up hread] at h
    exact absurd h (by simp)

end Upgrade

/-- **The upgrade does not depend on how the stream is cut.** -/
theorem upgrade_settled (decode : List UInt8 → String) {stream : List UInt8}
    (delivery : Chunked upgradeRecv stream) :
    Settled decode stream (openReader decode delivery.chunks) := by
  obtain ⟨chunks, hne, hlength, rfl⟩ := delivery
  refine ⟨fun head rest hcut hroom hok => ?_, fun head rest exc hcut hroom herror => ?_,
    fun hcut hshort => ?_, fun hcut hlong => ?_, fun session => of_openReader hne⟩
  · obtain ⟨session, hrest, houtcome⟩ := openReader_room decode hcut hne hlength hroom
    exact ⟨session, by rw [houtcome, hok]; rfl, hrest⟩
  · obtain ⟨session, hrest, houtcome⟩ := openReader_room decode hcut hne hlength hroom
    rw [houtcome, herror]
    rfl
  · have hread : readUntil headersEnd upgradeLimit [] chunks = .error .ended :=
      readUntil_ended hcut hshort
    exact openReader_gave_up hread
  · have hread : readUntil headersEnd upgradeLimit [] chunks = .error .exceeded :=
      readUntil_exceeded hcut hne hlong (Nat.zero_le _)
    exact openReader_gave_up hread

/-- How bytes of ASCII are decoded. -/
private def decodeAscii (bytes : List UInt8) : String :=
  String.ofList (bytes.map fun b => Char.ofNat b.toNat)

/-- A status line that the upgrade accepts. -/
private def switching : List UInt8 := "HTTP/1.1 101 Switching Protocols".toList.map (·.toNat.toUInt8)

/-- The server's first frame comes with the second half of the end of its headers. -/
private def cutInHeadersEnd : Chunked upgradeRecv (switching ++ headersEnd ++ [0, 0, 6, 4, 0]) where
  chunks := [switching ++ [13, 10, 13], [10, 0, 0], [6, 4, 0]]
  ne_nil := by decide
  length_le := by decide
  flatten_eq := by decide

/-- The session behind headers in two chunks gets all of the first frame. -/
theorem upgrade_settled_two_chunks :
    ∃ session, openReader decodeAscii cutInHeadersEnd.chunks = .ok session ∧
      session.leftover ++ session.unread.flatten = [0, 0, 6, 4, 0] :=
  (upgrade_settled decodeAscii cutInHeadersEnd).opened switching _ (by decide)
    (.inr (by decide)) (by decide)

/-! ### Downloads -/

/-- The stream that an event is about. -/
def ReaderEvent.stream : ReaderEvent → Option ℕ
  | .responseReceived sid _ | .dataReceived sid _ => some sid
  | .streamEnded sid | .streamReset sid _ => some sid
  | .other => none

/-- The data that an event brings for a stream. -/
def ReaderEvent.dataFor (sid : ℕ) : ReaderEvent → List UInt8
  | .dataReceived streamId data => if streamId = sid then data else []
  | _ => []

/-- The last status that is told of a stream. -/
def lastStatus (sid : ℕ) (status : Option ℤ) : List ReaderEvent → Option ℤ
  | [] => status
  | .responseReceived streamId told :: events =>
    lastStatus sid (if streamId = sid then some told else status) events
  | _ :: events => lastStatus sid status events

/-- The response of a stream is still going on after these events. -/
def Going (sid : ℕ) (events : List ReaderEvent) : Prop :=
  ∀ e ∈ events, e ≠ .streamEnded sid ∧ ∀ code, e ≠ .streamReset sid code

/-- What `get` has of a response after these events of it. -/
private def Response.after (sid : ℕ) (events : List ReaderEvent) (resp : Response) : Response :=
  { resp with
    status := lastStatus sid resp.status events
    body := resp.body ++ events.flatMap (ReaderEvent.dataFor sid) }

private theorem lastStatus_append (sid : ℕ) (status : Option ℤ) (before after : List ReaderEvent) :
    lastStatus sid status (before ++ after) =
      lastStatus sid (lastStatus sid status before) after := by
  induction before generalizing status with
  | nil => rfl
  | cons e before ih => cases e <;> exact ih _

private theorem Response.after_append (sid : ℕ) (before after : List ReaderEvent)
    (resp : Response) :
    resp.after sid (before ++ after) = (resp.after sid before).after sid after := by
  simp [Response.after, lastStatus_append]

private theorem Response.after_cons (sid : ℕ) (e : ReaderEvent) (events : List ReaderEvent)
    (resp : Response) : resp.after sid (e :: events) = (resp.after sid [e]).after sid events :=
  Response.after_append sid [e] events resp

/-- **What a download comes to**, of the events alone. -/
structure Responded (sid : ℕ) (events : List ReaderEvent)
    (outcome : Except Exn ((ℤ × List UInt8) × List (List ReaderEvent))) : Prop where
  /-- The response has the last status and all data; what is left to be read comes later. -/
  ended : ∀ before after, events = before ++ .streamEnded sid :: after → Going sid before →
    (∀ e ∈ after, e.stream ≠ some sid) → ∃ left, left.flatten <:+ after ∧ outcome =
      .ok (((lastStatus sid none before).getD 0, before.flatMap (ReaderEvent.dataFor sid)), left)
  reset : ∀ before code after, events = before ++ .streamReset sid code :: after →
    Going sid before → outcome = .error (.runtimeError s!"PBS reader stream reset ({code})")
  closed : Going sid events → outcome = .error (.runtimeError "PBS reader connection closed")

section Downloads

variable {sid : ℕ} {resp : Response} {events before after : List ReaderEvent}
  {batches : List (List ReaderEvent)}

/-- Events of a response that goes on. -/
private theorem note_going (h : Going sid events) :
    events.foldlM (Response.note sid) resp = .ok (resp.after sid events) := by
  induction events generalizing resp with
  | nil => simp [Response.after, lastStatus, pure, Except.pure]
  | cons e events ih =>
    obtain ⟨hhere, hlater⟩ := List.forall_mem_cons.mp h
    -- an event of another stream leaves the response as it is
    have hnote : Response.note sid resp e = .ok (resp.after sid [e]) := by
      cases e with
      | responseReceived streamId status =>
        by_cases heq : streamId = sid <;>
          simp [Response.note, Response.after, lastStatus, ReaderEvent.dataFor, heq]
      | dataReceived streamId data =>
        by_cases heq : streamId = sid <;>
          simp [Response.note, Response.after, lastStatus, ReaderEvent.dataFor, heq]
      | streamEnded streamId =>
        have heq : streamId ≠ sid := fun heq => hhere.1 (by rw [heq])
        simp [Response.note, Response.after, lastStatus, ReaderEvent.dataFor, heq]
      | streamReset streamId errorCode =>
        have heq : streamId ≠ sid := fun heq => hhere.2 errorCode (by rw [heq])
        simp [Response.note, Response.after, lastStatus, ReaderEvent.dataFor, heq]
      | other => simp [Response.note, Response.after, lastStatus, ReaderEvent.dataFor]
    rw [List.foldlM_cons, hnote, Response.after_cons sid e events resp]
    exact ih hlater

/-- Events of other streams. -/
private theorem note_foreign (h : ∀ e ∈ events, e.stream ≠ some sid) :
    events.foldlM (Response.note sid) resp = .ok resp := by
  induction events with
  | nil => rfl
  | cons e events ih =>
    obtain ⟨hhere, hlater⟩ := List.forall_mem_cons.mp h
    have hnote : Response.note sid resp e = .ok resp := by
      cases e <;> simp_all [Response.note, ReaderEvent.stream]
    rw [List.foldlM_cons, hnote]
    exact ih hlater

/-- The batch in which a response goes on is read event by event. -/
private theorem getFrom_append (h : Going sid before) (here : List ReaderEvent) :
    getFrom sid resp ((before ++ here) :: batches) =
      getFrom sid (resp.after sid before) (here :: batches) := by
  rw [getFrom, getFrom, List.foldlM_append, note_going h]
  rfl

private theorem getFrom_going (hopen : resp.done = false) (h : Going sid before) :
    getFrom sid resp (before :: batches) = getFrom sid (resp.after sid before) batches := by
  rw [getFrom, note_going h]
  simp [bind, Except.bind, Response.after, hopen]

/-- The loop comes to the event that the response is awaiting, whatever the batches are. -/
private theorem getFrom_reaches (hopen : resp.done = false) {e : ReaderEvent}
    (hall : batches.flatten = before ++ e :: after) (hbefore : Going sid before) :
    ∃ here more, here ++ more.flatten = after ∧
      getFrom sid resp batches = getFrom sid (resp.after sid before) ((e :: here) :: more) := by
  induction batches generalizing resp before with
  | nil => simp at hall
  | cons batch batches ih =>
    -- the event comes in a later batch, or in this one
    have hwhere : (∃ later, before = batch ++ later ∧ batches.flatten = later ++ e :: after) ∨
        ∃ here, batch = before ++ e :: here ∧ after = here ++ batches.flatten := by
      rw [List.flatten_cons, List.append_eq_append_iff] at hall
      rcases hall with hlater | ⟨here, hbatch, hrest⟩
      · exact .inl hlater
      · cases here with
        | nil => exact .inl ⟨[], by simpa using hbatch.symm, by simpa using hrest.symm⟩
        | cons e' here =>
          obtain ⟨rfl, htail⟩ := List.cons_eq_cons.mp hrest
          exact .inr ⟨here, hbatch, htail⟩
    rcases hwhere with ⟨later, rfl, hrest⟩ | ⟨here, rfl, hrest⟩
    · have hbatch : Going sid batch := fun e he => hbefore e (List.mem_append_left later he)
      have hstill : (resp.after sid batch).done = false := hopen
      obtain ⟨here, more, hafter, heq⟩ := ih hstill hrest
        fun e he => hbefore e (List.mem_append_right batch he)
      exact ⟨here, more, hafter, by rw [getFrom_going hopen hbatch, heq, Response.after_append]⟩
    · exact ⟨here, batches, hrest.symm, getFrom_append hbefore (e :: here)⟩

/-- The loop reads on while the response does. -/
private theorem getFrom_closed (hopen : resp.done = false) (h : Going sid batches.flatten) :
    getFrom sid resp batches = .error (.runtimeError "PBS reader connection closed") := by
  induction batches generalizing resp with
  | nil => rfl
  | cons batch batches ih =>
    rw [List.flatten_cons] at h
    have hstill : (resp.after sid batch).done = false := hopen
    rw [getFrom_going hopen fun e he => h e (List.mem_append_left _ he)]
    exact ih hstill fun e he => h e (List.mem_append_right _ he)

end Downloads

/-- **The response of a download does not depend on how its events arrive.** -/
theorem response_settled (sid : ℕ) (batches : List (List ReaderEvent)) :
    Responded sid batches.flatten (get sid batches) := by
  have hopen : ({} : Response).done = false := rfl
  refine ⟨fun before after hall hbefore hafter => ?_, fun before code after hall hbefore => ?_,
    getFrom_closed hopen⟩
  · obtain ⟨here, more, rfl, heq⟩ := getFrom_reaches hopen hall hbefore
    -- the rest of the batch is still gone through
    refine ⟨more, List.suffix_append here more.flatten, ?_⟩
    have hhere : ∀ e ∈ here, e.stream ≠ some sid := fun e he =>
      hafter e (List.mem_append_left more.flatten he)
    rw [get, heq, getFrom, List.foldlM_cons]
    simp only [Response.note, if_true, bind, Except.bind, note_foreign hhere]
    simp [Response.after, pure, Except.pure]
  · obtain ⟨here, more, -, heq⟩ := getFrom_reaches hopen hall hbefore
    rw [get, heq, getFrom, List.foldlM_cons]
    simp [Response.note, bind, Except.bind]

end RestoreEngine.PbsWire

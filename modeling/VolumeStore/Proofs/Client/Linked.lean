import VolumeStore.Proofs.Client.Calls
import VolumeStore.Proofs.Client.Refusals
import VolumeStore.Proofs.Server.Deliveries

/-!
# Clients of a store

A client that is linked with a store has a line on which nothing is left to be read, and a session
with a volume at its other end. An exchange on it succeeds exactly when the store reads the request
and carries it out, and then both ends are linked as before.
-/

namespace VolumeStore

namespace Online

/-- The client has this line to the store, with the session at its end and a volume mounted, and
everything that was sent on the line was read. -/
structure Linked (o : Online ServedStore) (line : Nat) (s : Session) : Prop where
  client : o.client.connection = some ⟨line, {}⟩
  session : o.network.HasLine line s
  mounted : s.isMounted = true

/-- A linked client of a store that can read lines and whose files are in order. -/
structure Steady (o : Online ServedStore) (line : Nat) (s : Session) : Prop
    extends o.Linked line s where
  room : o.network.hub.store.settings.maxCommandLength.toNat + 2 < UInt64.size
  stored : o.network.hub.store.tree.Stored
  files : s.InOrder o.network.hub.store.tree

/-- From one state to the other, a request of the client was carried out and answered, and nothing
else happened. -/
structure Carried (o : Online ServedStore) (line : Nat) (e : Execution) (o' : Online ServedStore) :
    Prop where
  client : o'.client = { o.client with requestsSent := o.client.requestsSent + 1 }
  network : o.network.Answers line e o'.network

def bytes (o : Online ServedStore) (id : Host.FileId) : List UInt8 :=
  (o.network.hub.store.tree.content id).toList

variable {o o' : Online ServedStore} {line : Nat} {s : Session} {r : ClientRequest}

theorem Linked.steady (h : o.Linked line s) (hrun : o.network.hub.Running) : o.Steady line s where
  toLinked := h
  room := hrun.inOrder.room _ (Hub.mem_of_connection? h.session) h.mounted
  stored := hrun.inOrder.stored
  files := hrun.inOrder.files _ (Hub.mem_of_connection? h.session)

def execution (o : Online ServedStore) (s : Session) (r : ClientRequest) : Execution :=
  s.executeMounted o.network.hub.store.settings o.network.hub.store.tree r.command r.payload

theorem Carried.steady (h : o.Steady line s) (hcarried : o.Carried line (o.execution s r) o')
    (hmounted : (o.execution s r).session.isMounted = true) :
    o'.Steady line (o.execution s r).session := by
  have hleaves := Session.leavesInOrder_executeMounted o.network.hub.store.settings h.stored h.files
    r.command r.payload
  refine ⟨⟨?_, hcarried.network.session, hmounted⟩, ?_, ?_, ?_⟩
  · rw [hcarried.client]
    exact h.client
  · rw [hcarried.network.settings]
    exact h.room
  · rw [hcarried.network.tree]
    exact hleaves.after.stored
  · rw [hcarried.network.tree]
    exact hleaves.files

end Online

namespace Client

variable {σ : Type} {n : Network σ} {o o' : Online σ}

theorem batch_cons_eq_ok {request : ClientRequest} {requests : List ClientRequest}
    {responses : List Response} (h : batch n (request :: requests) o = (.ok responses, o')) :
    ∃ response rest o₁, responses = response :: rest ∧
      exchange n request o = (.ok response, o₁) ∧ batch n requests o₁ = (.ok rest, o') := by
  unfold batch at h
  split at h
  · cases h
  next response o₁ hexchange =>
    split at h
    · cases h
    next rest o₂ hbatch =>
      cases h
      exact ⟨response, rest, o₁, rfl, hexchange, hbatch⟩

theorem andThen_eq_ok {α β : Type} {call : Call σ α} {next : α → Except ClientError β} {b : β}
    (h : (andThen call next o).1 = .ok b) :
    ∃ a, call o = (.ok a, (andThen call next o).2) ∧ next a = .ok b := by
  unfold andThen at h ⊢
  split at h
  next a o₁ heq =>
    rw [heq]
    exact ⟨a, rfl, h⟩
  · cases h

end Client

/-! ## Responses to what a store writes -/

namespace Response

theorem read_ok (command : Command) {code : UInt16} {text : String}
    (hcode : ReplyCode.IsPlain code) (htext : Text.OneLine text) :
    read command ⟨(Outcome.ok code text).toBytes, false⟩ =
      .ok ({ reply := ⟨code, text⟩ }, {}) :=
  @read_of_isPlain command ⟨code, text⟩ _ _ hcode
    (@Incoming.readReply_toLine ⟨code, text⟩ hcode.1 htext [] false)

theorem read_bytes (fd offset : UInt64) {len : UInt64} {data : List UInt8}
    (hlen : data.length ≤ len.toNat) :
    read (.read fd offset len)
        ⟨(Outcome.done ⟨ReplyCode.openingTransfer, Text.decimal data.length⟩
          (.bytes data)).toBytes, false⟩ =
      .ok ({ reply := ⟨ReplyCode.openingTransfer, Text.decimal data.length⟩, data := data },
        {}) := by
  have hcode : ReplyCode.IsThreeDigits ReplyCode.openingTransfer := by decide
  have hreply := @Incoming.readReply_toLine
    ⟨ReplyCode.openingTransfer, Text.decimal data.length⟩ hcode (Text.oneLine_decimal _) data false
  exact read_of_bytes hlen (hreply.trans (by rw [List.append_nil]))

theorem read_lines (path : String) {lines : List String}
    (hlines : ∀ line ∈ lines, Text.OneLine line) (hcount : lines.length < UInt64.size) :
    read (.list path)
        ⟨(Outcome.done ⟨ReplyCode.listing, Text.decimal lines.length⟩ (.lines lines)).toBytes,
          false⟩ =
      .ok ({ reply := ⟨ReplyCode.listing, Text.decimal lines.length⟩, lines := lines }, {}) := by
  have hcode : ReplyCode.IsThreeDigits ReplyCode.listing := by decide
  have hreply := @Incoming.readReply_toLine ⟨ReplyCode.listing, Text.decimal lines.length⟩ hcode
    (Text.oneLine_decimal _) (Outcome.attachmentBytes (.lines lines)) false
  have htexts := Incoming.readTexts_lineEnd hlines [] false
  rw [List.append_nil] at htexts
  exact read_of_lines hcount hreply htexts

theorem read_failed (command : Command) (error : StoreError) (more : List UInt8) (ended : Bool) :
    ∃ text rest, read command ⟨(Outcome.failed error).toBytes ++ more, ended⟩ =
      .ok ({ reply := ⟨error.replyCode.1, text⟩ }, rest) := by
  obtain ⟨text, rest, hreply⟩ := @Incoming.exists_readReply error.reply
    error.isPlain_replyCode.1 ([] ++ more) ended
  refine ⟨text, rest, ?_⟩
  unfold Outcome.toBytes
  rw [List.append_assoc]
  exact @read_of_isPlain command ⟨error.replyCode.1, text⟩ _ _ error.isPlain_replyCode hreply

theorem read_nil (command : Command) (ended : Bool) :
    ∃ error, read command ⟨[], ended⟩ = .error error := by
  cases ended <;> exact ⟨_, rfl⟩

end Response

/-! ## Exchanges -/

namespace Online.Steady

open Client

variable {o : Online ServedStore} {line : Nat} {s : Session} {r : ClientRequest}
  {response : Response}

theorem serve_eq (h : o.Steady line s) (r : ClientRequest) :
    s.serve o.network.hub.store.settings o.network.hub.store.tree
      (.command r.command (.ok r.payload)) = o.execution s r :=
  if_pos h.mounted

theorem exchange_eq (h : o.Steady line s) (hr : r.Proper)
    (hfits : r.Fits o.network.hub.store.settings) {e : Execution} (he : o.execution s r = e)
    (hread : Response.read r.command ⟨e.outcome.toBytes, false⟩ = .ok (response, {}))
    (hpositive : response.reply.isPositive = true) (hgoes : e.outcome.isClosing = false) :
    ∃ o', exchange ServedStore.network r o = (.ok response, o') ∧ o.Carried line e o' := by
  obtain ⟨served, hdeliver, hanswers⟩ := h.session.deliver_of_readRequest h.mounted h.room
    (hr.readRequest_of_fits hfits h.room false) ((h.serve_eq r).trans he) hgoes
  have hread' : Response.read r.command (Incoming.append {}
      (ServedStore.network.send o.network line r.toBytes).1) = .ok (response, {}) := by
    show Response.read r.command
      (Incoming.append {} (o.network.deliver line ⟨r.toBytes, false⟩).1) =
      _
    rw [hdeliver]
    exact hread
  refine ⟨_, exchange_of_positive h.client hread' hpositive, ?_, ?_⟩
  · exact congrArg (fun c => ({ o.client with
      connection := c, requestsSent := o.client.requestsSent + 1 } : Client)) h.client.symm
  · show o.network.Answers line _ (o.network.deliver line ⟨r.toBytes, false⟩).2
    rw [hdeliver]
    exact hanswers

theorem of_exchange_eq_ok (h : o.Steady line s) (hr : r.Proper)
    (hok : (exchange ServedStore.network r o).1 = .ok response) :
    r.Fits o.network.hub.store.settings ∧
      ∀ error, (o.execution s r).outcome ≠ .failed error := by
  obtain ⟨rest, hread, hpositive⟩ := read_of_exchange_eq_ok h.client hok
  obtain ⟨arrived, hsend⟩ : ∃ arrived,
      (ServedStore.network.send o.network line r.toBytes).1 = arrived := ⟨_, rfl⟩
  rw [hsend] at hread
  -- A negative reply would have made the call fail.
  have hunfailed : ∀ error more, arrived.bytes ≠ (Outcome.failed error).toBytes ++ more := by
    intro error more harrived
    obtain ⟨text, rest', hfailed⟩ :=
      Response.read_failed r.command error more arrived.ended
    rw [← harrived] at hfailed
    cases hfailed.symm.trans hread
    exact absurd (of_decide_eq_true hpositive) error.not_lt_leastNegative
  obtain hnil | ⟨request, left, more, hrequest, hbytes⟩ :=
    @ServedStore.HasLine.deliver_front _ _ _ r.toBytes false h.session h.mounted
  · obtain ⟨error, hsilent⟩ := Response.read_nil r.command arrived.ended
    rw [← show arrived.bytes = [] from hsend ▸ hnil] at hsilent
    cases hsilent.symm.trans hread
  replace hbytes : arrived.bytes = _ := hsend ▸ hbytes
  -- A request that does not fit is answered too, but with a refusal.
  by_cases hfits : r.Fits o.network.hub.store.settings
  · refine ⟨hfits, fun error hfailed => hunfailed error more ?_⟩
    cases (hr.readRequest_of_fits hfits h.room false).symm.trans hrequest
    rw [hbytes, h.serve_eq, hfailed]
  · obtain ⟨error, hfailed⟩ := hr.failed_of_not_fits hfits h.room hrequest h.mounted
      o.network.hub.store.tree
    rw [hfailed] at hbytes
    exact absurd hbytes (hunfailed error more)

/-- What a request that has succeeded leaves: the response that the client reads from the outcome,
and a client linked as before to what the execution has left. -/
theorem after_exchange (h : o.Steady line s) (hr : r.Proper) {o' : Online ServedStore}
    (hok : exchange ServedStore.network r o = (.ok response, o')) {response' : Response}
    {e : Execution} (he : o.execution s r = e)
    (hread : Response.read r.command ⟨e.outcome.toBytes, false⟩ = .ok (response', {}))
    (hpositive : response'.reply.isPositive = true) (hgoes : e.outcome.isClosing = false)
    (hmounted : e.session.isMounted = true) :
    response = response' ∧ o'.Steady line e.session ∧ o.Carried line e o' := by
  subst he
  obtain ⟨hfits, -⟩ := h.of_exchange_eq_ok hr (congrArg Prod.fst hok)
  obtain ⟨o'', hexchange, hcarried⟩ := h.exchange_eq hr hfits rfl hread hpositive hgoes
  rw [hok] at hexchange
  cases hexchange
  exact ⟨rfl, hcarried.steady h hmounted, hcarried⟩

end Online.Steady

/-! ## Stores behind a row of requests -/

instance (served : ServedStore) (line : Nat) (s : Session) : Decidable (served.HasLine line s) :=
  inferInstanceAs (Decidable (_ = _))

namespace ServedStore

def conversation (line : Nat) (requests : List ClientRequest) : List HubEvent :=
  .connect (peerOf line) :: requests.flatMap fun r =>
    [.arrive (peerOf line) r.toBytes, .turn (peerOf line) true]

/-- The store to which the clients at the first lines have sent these requests, one client after
the other. -/
def meeting (t : Host.Tree) (lines : Nat) (requests : List ClientRequest) : ServedStore where
  hub := ({ store := ⟨{}, t, { limit := lines }⟩ } : Hub).run
    ((List.range lines).flatMap fun line => conversation line requests)
  lines := lines

theorem running_meeting {t : Host.Tree} (h : t.Stored) (lines : Nat)
    (requests : List ClientRequest) : (meeting t lines requests).hub.Running :=
  ⟨_, _, h, rfl⟩

def withFile : ServedStore :=
  meeting Session.servedVolume 1
    [{ command := .mount "ltptest" },
      { command := .openFile { read := true, write := true, create := true } "/f" },
      { command := .write 1 0 5, payload := [1, 2, 3, 4, 5] }]

def openedFile : OpenFile where
  handle := { file := 0, access := { read := true, write := true }, position := 5 }
  path := "/f"
  flags := { read := true, write := true, create := true }

def fileSession : Session where
  peer := some (peerOf 0)
  mounted := some ⟨"ltptest", ⟨({} : StoreSettings).volumePath "ltptest"⟩⟩
  files := [(1, openedFile)]
  nextFd := 2

def fileClient : Online ServedStore where
  client := { settings := { maxPayload := 2 }, connection := some ⟨0, {}⟩ }
  network := withFile

theorem stored_servedVolume : Session.servedVolume.Stored where
  named entry hentry id hid := by
    obtain rfl | rfl : entry = _ ∨ entry = _ := List.mem_pair.1 hentry
    · cases hid
    · cases hid
  sized := nofun

theorem linked_fileClient : fileClient.Linked 0 fileSession where
  client := rfl
  session := by decide +kernel
  mounted := rfl

end ServedStore

end VolumeStore

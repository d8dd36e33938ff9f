import VolumeStore.Proofs.Client.Requests
import VolumeStore.Proofs.Server.RefusedLines
import VolumeStore.Proofs.Server.RunningHub
import VolumeStore.Server.Network

/-!
# What a store makes of a delivery

Bytes that come to a connection on which everything was read before. A request that keeps within
what the store reads is carried out, answered, and nothing else happens; any other request is
refused or not answered at all.
-/

namespace VolumeStore

/-! ## Requests that a store reads -/

/-- The request keeps within what a store reads: the length of its line and of its payload. -/
structure ClientRequest.Fits (r : ClientRequest) (settings : StoreSettings) : Prop where
  line : Text.byteLength r.command.toLine.toList ≤ settings.maxCommandLength.toNat
  payload : r.payload.length ≤ settings.maxPayload.toNat

theorem Frame.readLine_ne_line {f : Frame} {limit : UInt64} {rest : List UInt8} {ended : Bool}
    {line : String} {rest' : Incoming} (hcrlf : f.crlf = true)
    (hlong : limit.toNat < Text.byteLength f.line.toList) (honeLine : '\n' ∉ f.line.toList)
    (hroom : limit.toNat + 2 < UInt64.size) :
    Incoming.readLine ⟨f.bytes ++ rest, ended⟩ limit ≠ .ok (.line line, rest') := by
  intro hread
  obtain ⟨bytes, htake, -, -, hwhole⟩ := Incoming.readLine_eq_line hread
  have hlength : limit.toNat + 2 ≤ f.body.length := by
    unfold body
    rw [hcrlf, List.length_append, Text.length_encode]
    exact Nat.add_le_add_right hlong 1
  have hfront : (f.bytes ++ rest).take (limit.toNat + 2) = f.body.take (limit.toNat + 2) := by
    rw [Frame.bytes, encode_line_lineEnd, List.append_assoc, List.append_assoc,
      List.take_append_of_le_length hlength]
  have hfeed : lineFeed ∉ f.body.take (limit.toNat + 2) := fun hmem =>
    lineFeed_notMem_body honeLine (List.mem_of_mem_take hmem)
  have hbytes : bytes = f.body.take (limit.toNat + 2) := by
    rw [Incoming.eq_lineBytes_of_takeLine htake, lineRoom_eq hroom, lineBytes_eq_take, hfront]
    rwa [hfront]
  -- All the room is taken, and the line goes on behind it.
  obtain ⟨hclosed, -⟩ | ⟨-, hlen⟩ := hwhole
  · have hlast : bytes.getLast? = some lineFeed := by simpa [isClosed] using hclosed
    exact hfeed (hbytes ▸ List.mem_of_getLast? hlast)
  · rw [hbytes, List.length_take, lineRoom_eq hroom, Nat.min_eq_left hlength] at hlen
    exact hlen rfl

namespace ClientRequest.Proper

variable {r : ClientRequest} {settings : StoreSettings}

theorem readRequest_of_fits (h : r.Proper) (hfits : r.Fits settings)
    (hroom : settings.maxCommandLength.toNat + 2 < UInt64.size) (ended : Bool) :
    Incoming.readRequest ⟨r.toBytes, ended⟩ settings =
      .ok (.command r.command (.ok r.payload), ⟨[], ended⟩) := by
  have hread := h.delivers.read settings [] ended hfits.line hroom
  rwa [List.append_nil, if_neg (Nat.not_lt.2 hfits.payload)] at hread

theorem failed_of_not_fits (h : r.Proper) (hfits : ¬ r.Fits settings)
    (hroom : settings.maxCommandLength.toNat + 2 < UInt64.size) {ended : Bool} {request : Request}
    {rest : Incoming}
    (hread : Incoming.readRequest ⟨r.toBytes, ended⟩ settings = .ok (request, rest))
    {s : Session} (hs : s.isMounted = true) (t : Host.Tree) :
    ∃ error, (s.serve settings t request).outcome = .failed error := by
  -- Either the line is in order and the payload is too long, or the line itself is.
  by_cases hline : Text.byteLength r.command.toLine.toList ≤ settings.maxCommandLength.toNat
  · have hpayload : settings.maxPayload.toNat < r.payload.length :=
      Nat.lt_of_not_le fun hle => hfits ⟨hline, hle⟩
    have htooLarge := h.delivers.read settings [] ended hline hroom
    rw [List.append_nil, if_pos hpayload] at htooLarge
    cases htooLarge.symm.trans hread
    unfold Session.serve
    dsimp only
    rw [if_pos hs]
    exact ⟨_, rfl⟩
  · unfold Incoming.readRequest at hread
    simp only [bind, Except.bind] at hread
    split at hread
    · cases hread
    next taken htaken =>
      obtain ⟨read, rest'⟩ := taken
      cases read with
      | tooLong bytes =>
        cases hread
        exact ⟨_, rfl⟩
      | line text =>
        refine absurd htaken ?_
        have hoverlong : Incoming.readLine ⟨r.frame.bytes ++ [], ended⟩
            settings.maxCommandLength ≠ .ok (.line text, rest') :=
          Frame.readLine_ne_line rfl (Nat.lt_of_not_le hline)
            (fun hmem => absurd (h.isLineEnd_of_mem_toLine hmem) (by decide)) hroom
        rwa [bytes_frame, List.append_nil] at hoverlong

end ClientRequest.Proper

/-! ## Turns on a delivery -/

namespace Connection

variable {store : Store} {c : Connection}

theorem turn?_of_readRequest {request : Request} {rest : Incoming} {delivered : Bool}
    (hs : c.session.isMounted = true)
    (hread : c.incoming.readRequest store.settings = .ok (request, rest)) :
    c.turn? store delivered =
      some (({ c with incoming := rest } : Connection).mountedTurn store request delivered) := by
  unfold turn?
  rw [hread]
  dsimp only
  rw [if_pos hs]

theorem mountedTurn_eq {request : Request} {e : Execution} (hopen : c.isOpen = true)
    (he : c.session.serve store.settings store.tree request = e)
    (hgoes : e.outcome.isClosing = false) :
    ∃ store', c.mountedTurn store request true =
        ⟨store', { c with session := e.session }, some e.outcome⟩ ∧
      store'.tree = e.tree ∧ store'.settings = store.settings := by
  subst he
  refine ⟨(c.mountedTurn store request true).store, ?_, rfl, rfl⟩
  simp [mountedTurn, withSession, hgoes, hopen]

theorem turn?_eq_none (hin : c.incoming = {})
    (hroom : store.settings.maxCommandLength.toNat + 2 < UInt64.size) (delivered : Bool) :
    c.turn? store delivered = none := by
  have hread : Incoming.readRequest {} store.settings = .error .waiting := by
    unfold Incoming.readRequest Incoming.readLine
    rw [Frame.lineRoom_eq hroom]
    rfl
  unfold turn?
  rw [hin, hread]

theorem runAll_of_turn? {turn : Turn} (hopen : c.isOpen = true)
    (hturn : c.turn? store true = some turn) (hin : turn.connection.incoming = {})
    (hroom : turn.store.settings.maxCommandLength.toNat + 2 < UInt64.size) :
    c.runAll store = (turn.written.toList, turn.store, turn.connection) := by
  have hrest : ∀ turns, run turns turn.store turn.connection =
      ([], turn.store, turn.connection) := by
    rintro (_ | turns)
    · rfl
    · rw [run, turn?_eq_none hin hroom]
      split <;> rfl
  rw [runAll, run_of_turn? _ hopen hturn, hrest, List.append_nil]

theorem runAll_front (hopen : c.isOpen = true) (hs : c.session.isMounted = true) :
    (c.runAll store).1 = [] ∨
      ∃ request rest outcomes,
        c.incoming.readRequest store.settings = .ok (request, rest) ∧
        (c.runAll store).1 =
          (c.session.serve store.settings store.tree request).outcome :: outcomes := by
  unfold runAll
  cases hread : c.incoming.readRequest store.settings with
  | ok taken =>
    obtain ⟨request, rest⟩ := taken
    rw [run_of_turn? _ hopen (turn?_of_readRequest hs hread)]
    exact .inr ⟨request, rest, _, rfl, rfl⟩
  | error stop =>
    -- Without a request the connection waits or is lost, and nothing is written.
    left
    by_cases hstop : stop = .waiting
    · have hturn : c.turn? store true = none := by
        unfold turn?
        rw [hread, hstop]
      rw [run, hturn]
      split <;> rfl
    · rw [run_of_lost _ hopen hread hstop]

end Connection

/-! ## Deliveries -/

namespace ServedStore

variable {served : ServedStore} {line : Nat} {s : Session} {bytes : List UInt8} {ended : Bool}

/-- On the line there is a connection with this session, on which everything was read. -/
def HasLine (served : ServedStore) (line : Nat) (s : Session) : Prop :=
  served.hub.connection? (peerOf line) = some { peer := peerOf line, session := s }

/-- From one store to the other, an execution was answered on a line and nothing else happened. -/
structure Answers (served : ServedStore) (line : Nat) (e : Execution) (served' : ServedStore) :
    Prop where
  session : served'.HasLine line e.session
  tree : served'.hub.store.tree = e.tree
  settings : served'.hub.store.settings = served.hub.store.settings
  others : ∀ other s, peerOf other ≠ peerOf line → served.HasLine other s →
    served'.HasLine other s

def arrived (line : Nat) (s : Session) (bytes : List UInt8) (ended : Bool) : Connection :=
  { peer := peerOf line, session := s, incoming := ⟨bytes, ended⟩ }

def settled (served : ServedStore) (arrived : Connection) (store : Store) (c : Connection) :
    ServedStore :=
  let hub : Hub := { served.hub.setConnection arrived with store := store }
  { served with hub := hub.setConnection c }

theorem HasLine.deliver_eq (h : served.HasLine line s) (bytes : List UInt8) (ended : Bool) :
    served.deliver line ⟨bytes, ended⟩ =
      let r := (arrived line s bytes ended).runAll served.hub.store
      (⟨Connection.bytesOf r.1, !r.2.2.isOpen⟩,
        served.settled (arrived line s bytes ended) r.2.1 r.2.2) := by
  have hreceive : served.hub.receive (peerOf line) ⟨bytes, ended⟩ =
      served.hub.setConnection (arrived line s bytes ended) := by
    unfold Hub.receive
    rw [h]
    rfl
  have hthere : (served.hub.setConnection (arrived line s bytes ended)).connection?
      (peerOf line) = some (arrived line s bytes ended) :=
    Hub.connection?_setConnection_of_isOpen (c := arrived line s bytes ended)
      (Option.isSome_of_eq_some h) rfl
  unfold deliver Hub.runPeer
  rw [hreceive, hthere]
  rfl

theorem HasLine.deliver_of_readRequest (h : served.HasLine line s) (hs : s.isMounted = true)
    (hroom : served.hub.store.settings.maxCommandLength.toNat + 2 < UInt64.size)
    {request : Request}
    (hread : Incoming.readRequest ⟨bytes, false⟩ served.hub.store.settings = .ok (request, {}))
    {e : Execution} (he : s.serve served.hub.store.settings served.hub.store.tree request = e)
    (hgoes : e.outcome.isClosing = false) :
    ∃ served', served.deliver line ⟨bytes, false⟩ = (⟨e.outcome.toBytes, false⟩, served') ∧
      served.Answers line e served' := by
  obtain ⟨store, hturn, htree, hsettings⟩ := Connection.mountedTurn_eq
    (c := { peer := peerOf line, session := s }) rfl he hgoes
  have hread : (arrived line s bytes false).turn? served.hub.store true = some _ :=
    Connection.turn?_of_readRequest hs hread
  -- This one turn uses all the bytes, so the hub takes no other.
  have hrun := Connection.runAll_of_turn? (c := arrived line s bytes false) rfl
    (hread.trans (congrArg some hturn)) rfl (hsettings ▸ hroom)
  refine ⟨served.settled (arrived line s bytes false) store
    { peer := peerOf line, session := e.session }, ?_, ?_⟩
  · rw [h.deliver_eq, hrun]
    simp [Connection.bytesOf]
  · refine ⟨?_, htree, hsettings, fun other s' hne hother => ?_⟩
    · refine Hub.connection?_setConnection_of_isOpen
        (c := { peer := peerOf line, session := e.session }) ?_ rfl
      exact Option.isSome_of_eq_some (Hub.connection?_setConnection_of_isOpen
        (c := arrived line s bytes false) (Option.isSome_of_eq_some h) rfl)
    · exact (Hub.connection?_setConnection_of_ne _ _ hne).trans
        ((Hub.connection?_setConnection_of_ne served.hub (arrived line s bytes false) hne).trans
          hother)

theorem HasLine.deliver_front (h : served.HasLine line s) (hs : s.isMounted = true) :
    (served.deliver line ⟨bytes, ended⟩).1.bytes = [] ∨
      ∃ request rest more,
        Incoming.readRequest ⟨bytes, ended⟩ served.hub.store.settings = .ok (request, rest) ∧
        (served.deliver line ⟨bytes, ended⟩).1.bytes =
          (s.serve served.hub.store.settings served.hub.store.tree request).outcome.toBytes ++
            more := by
  rw [h.deliver_eq]
  obtain hnil | ⟨request, rest, outcomes, hread, hcons⟩ :=
    @Connection.runAll_front served.hub.store (arrived line s bytes ended) rfl hs
  · left
    show Connection.bytesOf _ = []
    rw [hnil]
    rfl
  · right
    refine ⟨request, rest, Connection.bytesOf outcomes, hread, ?_⟩
    show Connection.bytesOf _ = _
    rw [hcons]
    rfl

end ServedStore

end VolumeStore

import VolumeStore.Proofs.Server.HubRuns
import VolumeStore.Proofs.Server.LineLimit
import VolumeStore.Proofs.Session.OpenFiles

/-!
# Running hubs

A hub runs when a row of events has led to it from a store without connections. Then the files of
the host are stored, the open files of every connection are in order, and a volume is mounted only
where the limit for a line leaves room to read one.
-/

namespace VolumeStore

/-! ## Lines that were read -/

namespace Incoming

variable {s rest : Incoming} {limit : UInt64} {line : String}

theorem parse_of_lineRoom_eq_one (hroom : lineRoom limit = 1)
    (h : s.readLine limit = .ok (.line line, rest)) :
    ∃ error, Command.parse line = .error error := by
  obtain ⟨bytes, htake, hne, hdecode, hwhole⟩ := readLine_eq_line h
  rw [hroom] at htake hwhole
  have hlen : bytes.length ≤ 1 := eq_lineBytes_of_takeLine htake ▸ length_lineBytes_le 1 s.bytes
  have hpos := List.length_pos_iff.2 hne
  have hclosed : isClosed bytes = true := by
    obtain ⟨hclosed, -⟩ | ⟨-, hlen'⟩ := hwhole
    · exact hclosed
    · omega
  obtain ⟨b, rfl⟩ := List.length_eq_one_iff.1 (Nat.le_antisymm hlen hpos)
  obtain rfl : b = lineFeed := by simpa [isClosed] using hclosed
  obtain rfl : line = "\n" := by
    rw [Text.decode?_eq_some_iff] at hdecode
    exact Text.encode_injective (hdecode.symm.trans (by decide))
  exact ⟨_, rfl⟩

theorem lt_of_readRequest {settings : StoreSettings} {command : Command}
    {payload : Except WireError (List UInt8)}
    (h : s.readRequest settings = .ok (.command command payload, rest)) :
    settings.maxCommandLength.toNat + 2 < UInt64.size := by
  refine Nat.lt_of_not_le fun hle => ?_
  -- With such a limit no byte is looked at, or a single one, and that makes no command.
  obtain hroom | hroom := lineRoom_of_le hle
  · rw [readRequest_of_lineRoom_eq_zero hroom] at h
    cases h
  · unfold readRequest at h
    simp only [bind, Except.bind] at h
    split at h
    · cases h
    next taken hline =>
      obtain ⟨read, rest'⟩ := taken
      cases read with
      | tooLong bytes => cases h
      | line text =>
        obtain ⟨error, herror⟩ := parse_of_lineRoom_eq_one hroom hline
        dsimp only at h
        rw [herror] at h
        cases h

end Incoming

/-! ## Turns -/

namespace Session

variable {settings : StoreSettings} {s : Session} {t : Host.Tree}

theorem leavesInOrder_serve (settings : StoreSettings) (hstored : t.Stored) (h : s.InOrder t)
    (request : Request) : LeavesInOrder t (s.serve settings t request) := by
  cases request with
  | malformed error => exact h.leaves hstored.refl _
  | command command payload =>
    cases payload with
    | ok payload => exact leavesInOrder_execute settings hstored h command payload
    | error error =>
      unfold serve
      dsimp only
      split
      · exact h.leaves hstored.refl _
      · exact leavesInOrder_executeUnmounted settings hstored h command

theorem inOrder_unmount (s : Session) (t : Host.Tree) : s.unmount.InOrder t :=
  inOrder_of_files rfl

theorem exists_command_of_isMounted {request : Request} (hs : s.isMounted = false)
    (h : (s.serve settings t request).session.isMounted = true) :
    ∃ command payload, request = .command command payload := by
  cases request with
  | malformed error =>
    rw [show (s.serve settings t (.malformed error)).session = s from rfl, hs] at h
    cases h
  | command command payload => exact ⟨command, payload, rfl⟩

end Session

/-- A turn leaves the settings of the store as they are, its files stored, and the connection in
order; a volume is mounted afterwards if one was, or if a command was read. -/
structure Turn.KeepsOrder (store : Store) (c : Connection) (turn : Turn) : Prop where
  settings : turn.store.settings = store.settings
  after : Host.Tree.StoredAfter store.tree turn.store.tree
  files : turn.connection.session.InOrder turn.store.tree
  mounted : turn.connection.session.isMounted = true → c.session.isMounted = true ∨
    store.settings.maxCommandLength.toNat + 2 < UInt64.size

namespace Connection

variable {store : Store} {c : Connection} {delivered : Bool} {turn : Turn}

theorem keepsOrder_of_turn? (hstored : store.tree.Stored) (hc : c.session.InOrder store.tree)
    (h : c.turn? store delivered = some turn) : turn.KeepsOrder store c := by
  unfold turn? at h
  split at h
  · cases h
  · cases h
    have htree := tree_lost store c
    refine ⟨?_, ?_, ?_, fun hmounted => .inl hmounted⟩
    · unfold lost
      split <;> rfl
    · rw [htree]
      exact hstored.refl
    · rw [htree]
      exact hc
  next request rest hread =>
    have hserve := Session.leavesInOrder_serve store.settings hstored hc request
    have hroom : (c.session.serve store.settings store.tree request).session.isMounted = true →
        c.session.isMounted = true ∨
          store.settings.maxCommandLength.toNat + 2 < UInt64.size := by
      intro hmounted
      cases hs : c.session.isMounted with
      | true => exact .inl rfl
      | false =>
        obtain ⟨command, payload, rfl⟩ := Session.exists_command_of_isMounted hs hmounted
        exact .inr (Incoming.lt_of_readRequest hread)
    cases h
    split
    · exact ⟨rfl, hserve.after, hserve.files, hroom⟩
    · unfold unmountedTurn
      dsimp only
      split
      · exact ⟨rfl, hserve.after, hserve.files, hroom⟩
      · split
        · exact ⟨rfl, hserve.after, hserve.files, hroom⟩
        · -- Without a place in the registry the volume is given up again.
          exact ⟨rfl, hserve.after, Session.inOrder_unmount _ _, nofun⟩

end Connection

/-! ## Runs -/

namespace Hub

/-- A row of events has led to the hub, from a store whose files are stored. -/
def Running (hub : Hub) : Prop :=
  ∃ (store : Store) (events : List HubEvent), store.tree.Stored ∧
    hub = ({ store := store } : Hub).run events

/-- The files of the host and the open files of all connections are in order, and there is room
for a line where a volume is mounted. -/
structure InOrder (hub : Hub) : Prop where
  stored : hub.store.tree.Stored
  files : ∀ c ∈ hub.connections, c.session.InOrder hub.store.tree
  room : ∀ c ∈ hub.connections, c.session.isMounted = true →
    hub.store.settings.maxCommandLength.toNat + 2 < UInt64.size

variable {hub : Hub} {peer : Peer} {c : Connection}

theorem mem_of_connection? (h : hub.connection? peer = some c) : c ∈ hub.connections :=
  List.mem_of_find?_eq_some h

theorem mem_setConnection {d : Connection} (h : d ∈ (hub.setConnection c).connections) :
    d = c ∨ d ∈ hub.connections := by
  obtain ⟨old, hold, rfl⟩ := List.mem_map.1 h
  split
  · exact .inl rfl
  · exact .inr hold

theorem InOrder.receive (h : hub.InOrder) (peer : Peer) (new : Incoming) :
    (hub.receive peer new).InOrder := by
  unfold Hub.receive
  cases hc : hub.connection? peer with
  | none => exact h
  | some c =>
    have hmem := mem_of_connection? hc
    refine ⟨h.stored, fun d hd => ?_, fun d hd hmounted => ?_⟩
    · obtain rfl | hold := mem_setConnection hd
      · exact h.files c hmem
      · exact h.files d hold
    · obtain rfl | hold := mem_setConnection hd
      · exact h.room c hmem hmounted
      · exact h.room d hold hmounted

theorem InOrder.turn (h : hub.InOrder) (peer : Peer) (delivered : Bool) :
    (hub.step (.turn peer delivered)).1.InOrder := by
  unfold Hub.step
  dsimp only
  cases hc : hub.connection? peer with
  | none => exact h
  | some c =>
    have hmem := mem_of_connection? hc
    dsimp only
    cases hturn : c.turn? hub.store delivered with
    | none => exact h
    | some turn =>
      have hkeeps := Connection.keepsOrder_of_turn? h.stored (h.files c hmem) hturn
      -- Only the connection that took the turn has changed.
      refine ⟨hkeeps.after.stored, fun d hd => ?_, fun d hd hmounted => ?_⟩
      · obtain rfl | hold := mem_setConnection hd
        · exact hkeeps.files
        · exact (h.files d hold).mono hkeeps.after
      · show turn.store.settings.maxCommandLength.toNat + 2 < UInt64.size
        rw [hkeeps.settings]
        obtain rfl | hold := mem_setConnection hd
        · exact (hkeeps.mounted hmounted).elim (h.room c hmem) id
        · exact h.room d hold hmounted

theorem InOrder.step (h : hub.InOrder) (event : HubEvent) : (hub.step event).1.InOrder := by
  cases event with
  | connect peer =>
    unfold Hub.step
    dsimp only
    split
    · exact h
    · refine ⟨h.stored, fun d hd => ?_, fun d hd hmounted => ?_⟩
      · obtain rfl | hold := List.mem_cons.1 hd
        · exact Session.inOrder_of_files rfl
        · exact h.files d hold
      · obtain rfl | hold := List.mem_cons.1 hd
        · cases hmounted
        · exact h.room d hold hmounted
  | arrive peer bytes => exact h.receive peer ⟨bytes, false⟩
  | finish peer => exact h.receive peer ⟨[], true⟩
  | turn peer delivered => exact h.turn peer delivered

theorem InOrder.run (h : hub.InOrder) (events : List HubEvent) : (hub.run events).InOrder := by
  induction events generalizing hub with
  | nil => exact h
  | cons event events ih => exact ih (h.step event)

theorem Running.inOrder (h : hub.Running) : hub.InOrder := by
  obtain ⟨store, events, hstored, rfl⟩ := h
  exact InOrder.run ⟨hstored, fun _ hmem => absurd hmem List.not_mem_nil,
    fun _ hmem => absurd hmem List.not_mem_nil⟩ events

end Hub

end VolumeStore

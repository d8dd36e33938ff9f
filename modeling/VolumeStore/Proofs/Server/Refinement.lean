import VolumeStore.Proofs.Server.Framing
import VolumeStore.Server.Connection

/-!
# Connections refine sessions

A connection answers the frames of its stream one by one, as the session does that is given their
lines and payloads. Each turn takes one frame, whether a volume is mounted or not, and the turn that
mounts the first volume takes the place in the registry too. This holds under exactly the settings
whose limit for a line leaves two bytes below the greatest number of 64 bits.
-/

namespace VolumeStore

/-! ## The session that is given the frames -/

namespace Session

def runLine (settings : StoreSettings) (s : Session) (t : Host.Tree) (line : String)
    (payload : List UInt8) : Execution :=
  match Command.parse line with
  | .error error => s.refuse t (.wire error)
  | .ok command =>
    if s.isMounted then
      if settings.maxPayload.toNat < payload.length then
        s.refuse t (.wire (.payloadTooLarge payload.length settings.maxPayload.toNat))
      else s.executeMounted settings t command payload
    else s.executeUnmounted settings t command

def runFrames (settings : StoreSettings) (s : Session) (t : Host.Tree) :
    List Frame → List Outcome × Session × Host.Tree
  | [] => ([], s, t)
  | f :: fs =>
    let e := s.runLine settings t f.line f.payload
    if e.outcome.isClosing then ([e.outcome], e.session, e.tree)
    else
      let (outcomes, rest) := e.session.runFrames settings e.tree fs
      (e.outcome :: outcomes, rest)

theorem serve_request (settings : StoreSettings) (s : Session) (t : Host.Tree) (f : Frame) :
    s.serve settings t (f.request settings) = s.runLine settings t f.line f.payload := by
  unfold runLine Frame.request
  cases Command.parse f.line with
  | error error => rfl
  | ok command =>
    simp only
    by_cases hl : settings.maxPayload.toNat < f.payload.length
    · rw [if_pos hl, if_pos hl]
      rfl
    · rw [if_neg hl, if_neg hl]
      rfl

theorem eq_quit_of_isClosing {settings : StoreSettings} {s : Session} {t : Host.Tree}
    {command : Command}
    (h : (s.executeUnmounted settings t command).outcome.isClosing = true) : command = .quit := by
  cases command with
  | quit => rfl
  | mount name =>
    simp only [executeUnmounted, mountVolume] at h
    split at h
    · exact absurd h Bool.false_ne_true
    · split at h <;> exact absurd h Bool.false_ne_true
  | _ => exact absurd h Bool.false_ne_true

theorem mounted_of_isClosing {settings : StoreSettings} {s : Session} {t : Host.Tree} {r : Request}
    (hs : s.isMounted = false) (h : (s.serve settings t r).outcome.isClosing = true) :
    (s.serve settings t r).session.mounted = none := by
  cases r with
  | malformed error => exact absurd h Bool.false_ne_true
  | command command payload =>
    cases payload <;> simp only [serve, execute, hs] at h ⊢ <;>
      exact eq_quit_of_isClosing h ▸ rfl

end Session

/-! ## One turn -/

def Registry.HasRoom (r : Registry) (peer : Peer) : Prop :=
  (r.volume? peer).isSome ∨ r.size < r.limit

theorem Registry.HasRoom.register {r : Registry} {peer : Peer} (h : r.HasRoom peer)
    (volume : String) : ∃ r', r.register peer volume = .ok r' := by
  unfold Registry.register
  rw [if_neg]
  · exact ⟨_, rfl⟩
  · rintro ⟨hn, hl⟩
    rcases h with h | h
    · rw [Option.isNone_iff_eq_none] at hn
      rw [hn] at h
      exact absurd h (by decide)
    · omega

theorem Registry.hasRoom_of_register {r r' : Registry} {peer : Peer} {volume : String}
    (h : r.register peer volume = .ok r') : r'.HasRoom peer := by
  unfold Registry.register at h
  split at h
  · exact absurd h (by simp)
  · rw [← Except.ok.inj h]
    exact .inl (by simp [Registry.volume?])

structure Connection.Ready (store : Store) (c : Connection) : Prop where
  isOpen : c.isOpen = true
  room : store.registry.HasRoom c.peer

/-- The turn is an execution of the session, and leaves the rest of the stream. -/
structure Turn.Serves (turn : Turn) (settings : StoreSettings) (e : Execution) (rest : Incoming) :
    Prop where
  settings_eq : turn.store.settings = settings
  tree : turn.store.tree = e.tree
  written : turn.written = some e.outcome
  session : turn.connection.session = e.session
  incoming : turn.connection.incoming = rest
  closed : e.outcome.isClosing = true → turn.connection.isOpen = false
  ready : e.outcome.isClosing = false → turn.connection.Ready turn.store

namespace Connection

variable {store : Store} {c : Connection}

theorem Ready.unmountedTurn (h : c.Ready store) (hs : c.session.isMounted = false)
    (request : Request) :
    (c.unmountedTurn store request true).Serves store.settings
      (c.session.serve store.settings store.tree request) c.incoming := by
  unfold Connection.unmountedTurn
  dsimp only
  cases hm : (c.session.serve store.settings store.tree request).session.mounted with
  | none =>
    -- Nothing was mounted, so no place is taken in the registry.
    refine ⟨rfl, rfl, rfl, rfl, rfl, fun hc => ?_, fun hc => ⟨?_, h.room⟩⟩
    · simp [withSession, hc]
    · simp [withSession, hc, h.isOpen]
  | some mount =>
    -- The place that a mounted volume asks for is there.
    obtain ⟨registry, hr⟩ := h.room.register mount.name
    simp only [hr]
    refine ⟨rfl, rfl, rfl, rfl, rfl, fun hc => ?_, fun _ =>
      ⟨?_, Registry.hasRoom_of_register hr⟩⟩
    · have hnone := Session.mounted_of_isClosing hs hc
      rw [hm] at hnone
      exact absurd hnone (Option.some_ne_none _)
    · simp [withSession, h.isOpen]

theorem hasRoom_refreshRegistry {registry : Registry} {peer : Peer} (h : registry.HasRoom peer)
    (request : Request) (outcome : Outcome) :
    (refreshRegistry registry peer request outcome).HasRoom peer := by
  unfold refreshRegistry
  split
  · split
    · exact Registry.hasRoom_of_register ‹_›
    · exact h
  · exact h

theorem Ready.mountedTurn (h : c.Ready store) (request : Request) :
    (c.mountedTurn store request true).Serves store.settings
      (c.session.serve store.settings store.tree request) c.incoming := by
  refine ⟨rfl, rfl, rfl, rfl, rfl, fun hc => ?_, fun hc => ⟨?_, ?_⟩⟩
  · simp [Connection.mountedTurn, withSession, hc]
  · simp [Connection.mountedTurn, withSession, hc, h.isOpen]
  · simp only [Connection.mountedTurn, hc, Bool.not_false, Bool.and_true, if_true]
    exact hasRoom_refreshRegistry h.room request _

theorem Ready.turn? {f : Frame} {rest : List UInt8} {ended : Bool} (h : c.Ready store)
    (hf : f.Whole store.settings.maxCommandLength)
    (hroom : store.settings.maxCommandLength.toNat + 2 < UInt64.size)
    (hin : c.incoming = ⟨f.bytes ++ rest, ended⟩) :
    ∃ turn, c.turn? store true = some turn ∧
      turn.Serves store.settings (c.session.runLine store.settings store.tree f.line f.payload)
        ⟨rest, ended⟩ := by
  unfold Connection.turn?
  rw [hin, hf.readRequest hroom]
  refine ⟨_, rfl, ?_⟩
  rw [← Session.serve_request]
  have hready : Ready store { c with incoming := ⟨rest, ended⟩ } := ⟨h.isOpen, h.room⟩
  split
  · exact hready.mountedTurn _
  · exact hready.unmountedTurn (Bool.not_eq_true _ ▸ ‹_›) _

/-! ## The whole stream -/

theorem run_of_closed (turns : Nat) (store : Store) (h : c.isOpen = false) :
    run turns store c = ([], store, c) := by
  cases turns with
  | zero => rfl
  | succ turns => simp [run, h]

theorem run_of_turn? {turn : Turn} (turns : Nat) (hopen : c.isOpen = true)
    (h : c.turn? store true = some turn) :
    run (turns + 1) store c =
      (turn.written.toList ++ (run turns turn.store turn.connection).1,
        (run turns turn.store turn.connection).2) := by
  rw [run, if_neg (by simp [hopen]), h]

theorem run_of_lost {stop : ReadStop} (turns : Nat) (hopen : c.isOpen = true)
    (h : c.incoming.readRequest store.settings = .error stop) (hstop : stop ≠ .waiting) :
    run (turns + 1) store c = ([], (c.lost store).store, (c.lost store).connection) := by
  have hturn : c.turn? store true = some (c.lost store) := by
    unfold Connection.turn?
    rw [h]
    cases stop <;> first | rfl | exact absurd rfl hstop
  rw [run_of_turn? turns hopen hturn]
  exact congrArg (fun r => ([] ++ r.1, r.2))
    (run_of_closed (c := (c.lost store).connection) turns _ rfl)

theorem tree_lost (store : Store) (c : Connection) : (c.lost store).store.tree = store.tree := by
  unfold lost
  split <;> rfl

theorem readRequest_nil (settings : StoreSettings) :
    Incoming.readRequest ⟨[], true⟩ settings = .error .ended := by
  have hnil : ∀ n, lineBytes n [] = [] := fun n => by cases n <;> rfl
  simp [Incoming.readRequest, Incoming.readLine, Incoming.takeLine, hnil, bind, Except.bind]

structure Realizes (r : List Outcome × Store × Connection) (outcomes : List Outcome)
    (session : Session) (tree : Host.Tree) : Prop where
  written : r.1 = outcomes
  session_eq : r.2.2.session = session
  tree_eq : r.2.1.tree = tree
  closed : r.2.2.isOpen = false

def stream (frames : List Frame) (last : Option Frame) : List UInt8 :=
  frames.flatMap Frame.bytes ++ (last.map Frame.bytes).getD []

theorem run_last {last : Option Frame} (turns : Nat) (hopen : c.isOpen = true)
    (hroom : store.settings.maxCommandLength.toNat + 2 < UInt64.size)
    (hlast : ∀ f ∈ last, f.CutShort store.settings.maxCommandLength)
    (hin : c.incoming = ⟨stream [] last, true⟩) :
    Realizes (run (turns + 1) store c) [] c.session store.tree := by
  have hstop : ∃ stop, c.incoming.readRequest store.settings = .error stop ∧ stop ≠ .waiting := by
    cases last with
    | none => exact ⟨_, hin ▸ readRequest_nil _, ReadStop.noConfusion⟩
    | some f => exact ⟨_, hin ▸ (hlast f rfl).readRequest hroom, ReadStop.noConfusion⟩
  obtain ⟨stop, hread, hstop⟩ := hstop
  rw [run_of_lost turns hopen hread hstop]
  exact ⟨rfl, rfl, tree_lost store c, rfl⟩

theorem Ready.run_frames {settings : StoreSettings} {last : Option Frame}
    (hroom : settings.maxCommandLength.toNat + 2 < UInt64.size)
    (hlast : ∀ f ∈ last, f.CutShort settings.maxCommandLength) (frames : List Frame) :
    ∀ (turns : Nat) (store : Store) (c : Connection), store.settings = settings →
      c.Ready store → frames.length < turns →
      (∀ f ∈ frames, f.Whole settings.maxCommandLength) →
      c.incoming = ⟨stream frames last, true⟩ →
      Realizes (run turns store c) (c.session.runFrames settings store.tree frames).1
        (c.session.runFrames settings store.tree frames).2.1
        (c.session.runFrames settings store.tree frames).2.2 := by
  -- By the frames: each takes one turn, and there are more turns than frames.
  induction frames with
  | nil =>
    rintro (_ | turns) store c rfl hready hturns - hin
    · exact absurd hturns (Nat.not_lt_zero _)
    · exact run_last turns hready.isOpen hroom hlast hin
  | cons f frames ih =>
    rintro (_ | turns) store c rfl hready hturns hframes hin
    · exact absurd hturns (Nat.not_lt_zero _)
    rw [stream, List.flatMap_cons, List.append_assoc] at hin
    obtain ⟨turn, hturn, hserves⟩ := hready.turn? (hframes f List.mem_cons_self) hroom hin
    rw [run_of_turn? turns hready.isOpen hturn, hserves.written]
    unfold Session.runFrames
    dsimp only
    by_cases hc : (c.session.runLine store.settings store.tree f.line f.payload).outcome.isClosing
    · -- A quit leaves the frames behind it unread.
      rw [if_pos hc, run_of_closed turns turn.store (hserves.closed hc)]
      exact ⟨rfl, hserves.session, hserves.tree, hserves.closed hc⟩
    · rw [if_neg hc]
      have hrest := ih turns _ _ hserves.settings_eq (hserves.ready (Bool.not_eq_true _ ▸ hc))
        (by simpa using hturns) (fun g hg => hframes g (List.mem_cons_of_mem _ hg))
        hserves.incoming
      rw [hserves.session, hserves.tree] at hrest
      exact ⟨congrArg (_ :: ·) hrest.written, hrest.session_eq, hrest.tree_eq, hrest.closed⟩

/-- A whole connection: the client is greeted, sends the bytes and nothing more. Gives what is
written, in order. -/
def converse (store : Store) (peer : Peer) (bytes : List UInt8) :
    List Outcome × Store × Connection :=
  let (outcomes, rest) := runAll store { ofPeer peer with incoming := ⟨bytes, true⟩ }
  (Store.greeting :: outcomes, rest)

theorem written_converse (store : Store) (peer : Peer) (bytes : List UInt8) :
    (converse store peer bytes).1 =
      Store.greeting :: (runAll store { ofPeer peer with incoming := ⟨bytes, true⟩ }).1 :=
  rfl

theorem length_le_stream (frames : List Frame) (last : Option Frame) :
    frames.length ≤ (stream frames last).length := by
  induction frames with
  | nil => exact Nat.zero_le _
  | cons f frames ih =>
    have hpos := f.length_bytes_pos
    simp only [stream, List.flatMap_cons, List.length_append, List.length_cons] at ih ⊢
    omega

end Connection

/-! ## Refinement -/

/-- A connection is its session: on the bytes of whole frames and of a last one that may be cut
short, it writes the greeting and the outcome of each line, in order, ends, and leaves the session
and the tree that the lines leave. -/
def StoreSettings.Refines (settings : StoreSettings) : Prop :=
  ∀ (tree : Host.Tree) (registry : Registry) (peer : Peer) (frames : List Frame)
    (last : Option Frame),
    registry.HasRoom peer →
    (∀ f ∈ frames, f.Whole settings.maxCommandLength) →
    (∀ f ∈ last, f.CutShort settings.maxCommandLength) →
    let answers := (Session.ofPeer peer).runFrames settings tree frames
    Connection.Realizes
      (Connection.converse ⟨settings, tree, registry⟩ peer (Connection.stream frames last))
      (Store.greeting :: answers.1) answers.2.1 answers.2.2

theorem StoreSettings.refines_of_lt {settings : StoreSettings}
    (h : settings.maxCommandLength.toNat + 2 < UInt64.size) : settings.Refines := by
  intro tree registry peer frames last hroom hframes hlast
  have hrun := Connection.Ready.run_frames h hlast frames
    ((Connection.stream frames last).length + 1) ⟨settings, tree, registry⟩
    { Connection.ofPeer peer with incoming := ⟨Connection.stream frames last, true⟩ } rfl
    ⟨rfl, hroom⟩ (Nat.lt_succ_of_le (Connection.length_le_stream frames last)) hframes rfl
  exact ⟨congrArg (_ :: ·) hrun.written, hrun.session_eq, hrun.tree_eq, hrun.closed⟩

def noopFrame : Frame :=
  ⟨"NOOP", false, []⟩

theorem noopFrame_whole {limit : UInt64} (h : 4 ≤ limit.toNat) : noopFrame.Whole limit :=
  ⟨⟨h, by decide, by decide⟩, by decide⟩

theorem parse_noop : Command.parse "NOOP" = .ok .noop :=
  rfl

theorem Incoming.readLine_of_lineRoom_eq_zero {limit : UInt64} (h : lineRoom limit = 0)
    (s : Incoming) : s.readLine limit = .error .ended := by
  simp [readLine, h, takeLine, lineBytes, bind, Except.bind]

theorem Incoming.readRequest_of_lineRoom_eq_zero {settings : StoreSettings}
    (h : lineRoom settings.maxCommandLength = 0) (s : Incoming) :
    s.readRequest settings = .error .ended := by
  unfold readRequest
  rw [readLine_of_lineRoom_eq_zero h]
  rfl

theorem Incoming.readRequest_noop_of_lineRoom_eq_one {settings : StoreSettings}
    (h : lineRoom settings.maxCommandLength = 1) :
    readRequest ⟨noopFrame.bytes, true⟩ settings =
      .ok (.malformed (.commandTooLong 5), ⟨[], true⟩) := by
  have hbytes : noopFrame.bytes = [0x4e, 0x4f, 0x4f, 0x50, 0x0a] := by decide
  have hletter : Text.decode? [0x4e] = some "N" := by
    rw [Text.decode?_eq_some_iff]
    decide
  have hquiet : Command.announcedPayload? "N" = none := by decide
  rw [hbytes]
  simp [readRequest, readLine, h, takeLine, lineBytes, lineFeed, isClosed, hletter, skipAnnounced,
    hquiet, drop, bind, Except.bind, pure, Except.pure]

theorem lineRoom_of_le {limit : UInt64} (h : UInt64.size ≤ limit.toNat + 2) :
    Incoming.lineRoom limit = 0 ∨ Incoming.lineRoom limit = 1 := by
  have hlt := limit.toNat_lt_size
  have heq : Incoming.lineRoom limit = (limit.toNat + 2) % UInt64.size := UInt64.toNat_add _ _
  unfold UInt64.size at *
  omega

theorem Connection.runAll_noop_ne {s : Store}
    (h : UInt64.size ≤ s.settings.maxCommandLength.toNat + 2) (peer : Peer) :
    (runAll s { ofPeer peer with incoming := ⟨noopFrame.bytes, true⟩ }).1 ≠
      [.ok ReplyCode.done "OK"] := by
  unfold runAll
  generalize List.length _ = turns
  rcases lineRoom_of_le h with hroom | hroom
  · -- Nothing is read, so nothing is answered.
    rw [run_of_lost turns rfl (Incoming.readRequest_of_lineRoom_eq_zero hroom _)
      ReadStop.noConfusion]
    exact (List.cons_ne_nil _ _).symm
  · simp [run, turn?, ofPeer, Incoming.readRequest_noop_of_lineRoom_eq_one hroom, unmountedTurn,
      Session.ofPeer, Session.isMounted, Session.serve, Session.refuse, Outcome.ok]

theorem StoreSettings.not_refines_of_le {settings : StoreSettings}
    (h : UInt64.size ≤ settings.maxCommandLength.toNat + 2) : ¬ settings.Refines := by
  intro hrefines
  have hlimit : 4 ≤ settings.maxCommandLength.toNat := by
    unfold UInt64.size at h
    omega
  have hwritten := (hrefines default ⟨[], 1⟩ default [noopFrame] none (.inr Nat.zero_lt_one)
    (fun f hf => List.mem_singleton.1 hf ▸ noopFrame_whole hlimit) nofun).written
  have hline : (Session.ofPeer default).runFrames settings default [noopFrame] =
      ([.ok ReplyCode.done "OK"], Session.ofPeer default, default) := by
    simp only [Session.runFrames, Session.runLine, noopFrame, parse_noop]
    rfl
  have hstream : Connection.stream [noopFrame] none = noopFrame.bytes := by decide
  simp only [hline, hstream, Connection.written_converse, List.cons.injEq, true_and] at hwritten
  exact Connection.runAll_noop_ne (s := ⟨settings, default, ⟨[], 1⟩⟩) h default hwritten

/-- A connection is its session exactly when the limit for a line leaves room for two more bytes
below the end of the numbers of 64 bits. -/
theorem StoreSettings.refines_iff_lt (settings : StoreSettings) :
    settings.Refines ↔ settings.maxCommandLength.toNat + 2 < UInt64.size := by
  constructor
  · intro hrefines
    exact Nat.lt_of_not_le fun hle => not_refines_of_le hle hrefines
  · exact refines_of_lt

/-- Settings that are in order may leave no room for a line. -/
theorem StoreSettings.not_forall_refines :
    ¬ ∀ settings : StoreSettings, settings.fault? = none → settings.Refines := by
  intro hall
  exact not_refines_of_le (by decide)
    (hall { maxCommandLength := 18446744073709551615 } (by decide))

end VolumeStore

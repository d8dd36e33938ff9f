import VolumeStore.Proofs.Server.Refinement
import VolumeStore.Proofs.Session.Steps
import VolumeStore.Proofs.Wire.ReplyLines

/-!
# Renames in two requests

The source of a rename waits on a connection for its target. The next command that is carried out
ends the wait. A request that is refused before it is carried out does not: a line that is too long
or no command, or a payload that is too large, leaves the source waiting.
-/

namespace VolumeStore

/-- A request as a connection took it from its stream, with the session and the files as they were.
-/
structure Taken where
  session : Session
  tree : Host.Tree
  request : Request

namespace Taken

variable {settings : StoreSettings} {r : Taken} {source : String}

def execution (settings : StoreSettings) (r : Taken) : Execution :=
  r.session.serve settings r.tree r.request

/-- The request is refused before it is carried out: it is no command, or a session with a volume
does not take its payload. -/
def PassedOver (r : Taken) : Prop :=
  match r.request with
  | .malformed _ => True
  | .command _ (.ok _) => False
  | .command _ (.error _) => r.session.isMounted = true

/-- The request names the source of a rename, in canonical form, and is answered that the target may
follow. -/
def Announces (settings : StoreSettings) (r : Taken) (source : String) : Prop :=
  ∃ path payload, r.request = .command (.renameFrom path) (.ok payload) ∧
    (r.execution settings).outcome.reply.code = ReplyCode.pending ∧
    VolumePath.normalize path = .ok source

/-- The request names the target of a rename, on a session with a volume. -/
def Targets (r : Taken) (target : String) : Prop :=
  r.session.isMounted = true ∧ ∃ payload, r.request = .command (.renameTo target) (.ok payload)

def succeeds (settings : StoreSettings) (r : Taken) : Bool :=
  match (r.execution settings).outcome with
  | .done _ _ => true
  | _ => false

def Renames (r : Taken) (source : String) : Prop :=
  (∃ target, r.Targets target) ∧ r.session.renameSource = some source

end Taken

/-- In a history, the newest request first, a source waits: its announcement is followed only by
requests that were passed over. -/
def Waiting (settings : StoreSettings) (log : List Taken) (source : String) : Prop :=
  ∃ passed origin older, log = passed ++ origin :: older ∧ (∀ r ∈ passed, r.PassedOver) ∧
    origin.Announces settings source

/-! ## What a request does to the source -/

namespace Session

variable {settings : StoreSettings} {s : Session} {t : Host.Tree} {source : String}

def Tidy (s : Session) : Prop :=
  s.mounted = none → s.renameSource = none

theorem code_ne_pending (error : StoreError) : error.reply.code ≠ ReplyCode.pending :=
  error.replyCode_of_all (· ≠ ReplyCode.pending) (by decide)

theorem Step.renameSource {command : Command} {e : Execution} (h : s.Step command e)
    (hcommand : ∀ path, command ≠ .renameFrom path) :
    e.session.renameSource = s.renameSource ∨ e.session.renameSource = none := by
  cases h with
  | began => exact absurd rfl (hcommand _)
  | mounted | left => exact .inr rfl
  | refused | answered | listed | opened | stopped | wrote | read | closed => exact .inl rfl

/-- A source waits after a command exactly when the command named it and is told so, and it is the
canonical form of the path. -/
theorem Step.renameSource_iff {command : Command} {e : Execution} (h : s.Step command e)
    (hnone : s.renameSource = none) :
    e.session.renameSource = some source ↔ ∃ path, command = .renameFrom path ∧
      e.outcome.reply.code = ReplyCode.pending ∧ VolumePath.normalize path = .ok source := by
  -- No other command sets a source, and there is none from before.
  by_cases hfrom : ∃ path, command = .renameFrom path
  · obtain ⟨path, rfl⟩ := hfrom
    cases h with
    | refused error =>
      constructor
      · intro hsource
        cases hnone.symm.trans hsource
      · rintro ⟨-, -, hcode, -⟩
        exact absurd hcode (code_ne_pending error)
    | answered hkeeps => cases hkeeps
    | stopped hmoves => cases hmoves
    | @began _ p hparse =>
      have hnormalize := VolumePath.normalize_of_parse hparse
      constructor
      · intro hsource
        cases hsource
        exact ⟨path, rfl, rfl, hnormalize⟩
      · rintro ⟨other, heq, -, hother⟩
        cases heq
        cases hnormalize.symm.trans hother
        rfl
  · have hother : ∀ path, command ≠ .renameFrom path := fun path hpath => hfrom ⟨path, hpath⟩
    have hafter : e.session.renameSource = none := by
      rcases h.renameSource hother with heq | heq
      · exact heq.trans hnone
      · exact heq
    rw [hafter]
    constructor
    · intro hsource
      cases hsource
    · rintro ⟨path, hpath, -⟩
      exact absurd hpath (hother path)

theorem Step.tidy {command : Command} {e : Execution} (h : s.Step command e)
    (hnone : s.renameSource = none) (hmounted : s.isMounted = true) : e.session.Tidy := by
  cases h with
  | began =>
    intro hgone
    exact absurd hmounted (Option.not_isSome_iff_eq_none.2 hgone)
  | mounted | left => exact fun _ => rfl
  | refused | answered | listed | opened | stopped | wrote | read | closed => exact fun _ => hnone

theorem renameSource_executeUnmounted (h : s.renameSource = none) (settings : StoreSettings)
    (t : Host.Tree) (command : Command) :
    (s.executeUnmounted settings t command).session.renameSource = none := by
  apply Option.eq_none_iff_forall_ne_some.2
  intro source hsource
  obtain ⟨path, rfl, hcode, -⟩ :=
    ((step_executeUnmounted settings s t command).renameSource_iff h).1 hsource
  exact absurd hcode (code_ne_pending (.session .notMounted))

end Session

/-! ## What a request does to what waits -/

namespace Taken

variable {settings : StoreSettings} {r : Taken} {source : String}

theorem execution_of_passedOver (settings : StoreSettings) (h : r.PassedOver) :
    ∃ error, r.execution settings = r.session.refuse r.tree error := by
  obtain ⟨s, t, request⟩ := r
  unfold PassedOver at h
  unfold execution Session.serve
  cases request with
  | malformed error => exact ⟨.wire error, rfl⟩
  | command command payload =>
    cases payload with
    | ok payload => exact h.elim
    | error error => exact ⟨.wire error, if_pos h⟩

theorem session_of_passedOver (h : r.PassedOver) :
    (r.execution settings).session = r.session := by
  obtain ⟨error, hrefused⟩ := execution_of_passedOver settings h
  rw [hrefused]
  rfl

theorem not_announces_of_passedOver (h : r.PassedOver) : ¬ r.Announces settings source := by
  rintro ⟨path, payload, hrequest, -⟩
  unfold PassedOver at h
  rw [hrequest] at h
  exact h

theorem execution_of_not_passedOver (settings : StoreSettings) (h : ¬ r.PassedOver) :
    (r.session.isMounted = true ∧ ∃ command payload, r.request = .command command (.ok payload) ∧
      r.execution settings = r.session.executeMounted settings r.tree command payload) ∨
    (r.session.mounted = none ∧ ∃ command payload, r.request = .command command payload ∧
      r.execution settings = r.session.executeUnmounted settings r.tree command) := by
  obtain ⟨s, t, request⟩ := r
  unfold PassedOver at h
  unfold execution Session.serve
  cases request with
  | malformed error => exact absurd trivial h
  | command command payload =>
    cases payload with
    | ok payload =>
      unfold Session.execute
      by_cases hmounted : s.isMounted = true
      · exact .inl ⟨hmounted, command, payload, rfl, if_pos hmounted⟩
      · exact .inr ⟨Option.not_isSome_iff_eq_none.1 hmounted, command, .ok payload, rfl,
          if_neg hmounted⟩
    | error error =>
      exact .inr ⟨Option.not_isSome_iff_eq_none.1 h, command, .error error, rfl, if_neg h⟩

theorem renameSource_of_not_passedOver (htidy : r.session.Tidy) (h : ¬ r.PassedOver) :
    (r.execution settings).session.renameSource = some source ↔ r.Announces settings source := by
  have hexecution := execution_of_not_passedOver settings h
  unfold Announces
  rcases hexecution with
    ⟨-, command, payload, hrequest, heq⟩ | ⟨hnone, command, payload, hrequest, heq⟩
  · have hstep := r.session.step_executeMounted settings r.tree command payload
    rw [hrequest, heq, hstep.renameSource_iff rfl]
    constructor
    · rintro ⟨path, rfl, hcode, hnormalize⟩
      exact ⟨path, payload, rfl, hcode, hnormalize⟩
    · rintro ⟨path, payload', hsame, hcode, hnormalize⟩
      cases hsame
      exact ⟨path, rfl, hcode, hnormalize⟩
  · -- Without a volume nothing waits, and the source of a rename is refused.
    rw [hrequest, heq, Session.renameSource_executeUnmounted (htidy hnone)]
    constructor
    · intro hsource
      cases hsource
    · rintro ⟨path, payload', hsame, hcode, -⟩
      cases hsame
      exact absurd hcode (Session.code_ne_pending (.session .notMounted))

theorem renameSource_of_unmounted (settings : StoreSettings) (htidy : r.session.Tidy)
    (hnone : r.session.mounted = none) : (r.execution settings).session.renameSource = none := by
  by_cases hpassed : r.PassedOver
  · rw [session_of_passedOver hpassed]
    exact htidy hnone
  rcases execution_of_not_passedOver settings hpassed with
    ⟨hmounted, -⟩ | ⟨-, command, payload, -, heq⟩
  · exact absurd hmounted (Option.not_isSome_iff_eq_none.2 hnone)
  · rw [heq]
    exact Session.renameSource_executeUnmounted (htidy hnone) settings r.tree command

theorem tidy_execution (settings : StoreSettings) (htidy : r.session.Tidy) :
    (r.execution settings).session.Tidy := by
  by_cases hpassed : r.PassedOver
  · rw [session_of_passedOver hpassed]
    exact htidy
  rcases execution_of_not_passedOver settings hpassed with
    ⟨hmounted, command, payload, -, heq⟩ | ⟨hnone, command, payload, -, heq⟩
  · rw [heq]
    exact (r.session.step_executeMounted settings r.tree command payload).tidy rfl hmounted
  · rw [heq]
    exact fun _ => Session.renameSource_executeUnmounted (htidy hnone) settings r.tree command

end Taken

/-! ## Histories -/

theorem waiting_cons_of_passedOver {settings : StoreSettings} {r : Taken} {log : List Taken}
    {source : String} (h : r.PassedOver) :
    Waiting settings (r :: log) source ↔ Waiting settings log source := by
  constructor
  · rintro ⟨passed, origin, older, hlog, hpassed, horigin⟩
    cases passed with
    | nil =>
      cases hlog
      exact absurd horigin (Taken.not_announces_of_passedOver h)
    | cons first passed =>
      cases hlog
      exact ⟨passed, origin, older, rfl, fun p hp => hpassed p (List.mem_cons_of_mem _ hp), horigin⟩
  · rintro ⟨passed, origin, older, rfl, hpassed, horigin⟩
    exact ⟨r :: passed, origin, older, rfl, List.forall_mem_cons.2 ⟨h, hpassed⟩, horigin⟩

theorem waiting_cons_of_not_passedOver {settings : StoreSettings} {r : Taken} {log : List Taken}
    {source : String} (h : ¬ r.PassedOver) :
    Waiting settings (r :: log) source ↔ r.Announces settings source := by
  constructor
  · rintro ⟨passed, origin, older, hlog, hpassed, horigin⟩
    cases passed with
    | nil =>
      cases hlog
      exact horigin
    | cons first passed =>
      cases hlog
      exact absurd (hpassed r List.mem_cons_self) h
  · intro horigin
    exact ⟨[], r, log, rfl, fun _ hmem => absurd hmem List.not_mem_nil, horigin⟩

namespace Connection

variable {settings : StoreSettings} {c : Connection} {log : List Taken} {source : String}

/-- How a connection comes about, with the requests that it has taken, the newest first. Bytes
arrive at any time, other connections may change the files and the registry of the store between two
turns, and a reply may be lost. -/
inductive Took (settings : StoreSettings) : Connection → List Taken → Prop
  | start (peer : Peer) : Took settings (ofPeer peer) []
  | arrive {c : Connection} {log : List Taken} (h : Took settings c log) (more : Incoming) :
    Took settings { c with incoming := c.incoming.append more } log
  | turn {c : Connection} {log : List Taken} (h : Took settings c log) (hopen : c.isOpen = true)
    {store : Store} (hsettings : store.settings = settings) {request : Request} {rest : Incoming}
    (hread : c.incoming.readRequest settings = .ok (request, rest)) {delivered : Bool} {turn : Turn}
    (hturn : c.turn? store delivered = some turn) :
    Took settings turn.connection (⟨c.session, store.tree, request⟩ :: log)

theorem session_turn? {store : Store} {request : Request} {rest : Incoming} {delivered : Bool}
    {turn : Turn} (hread : c.incoming.readRequest store.settings = .ok (request, rest))
    (hturn : c.turn? store delivered = some turn) :
    turn.connection.session = (c.session.serve store.settings store.tree request).session ∨
      (c.session.mounted = none ∧ turn.connection.session =
        (c.session.serve store.settings store.tree request).session.unmount) := by
  unfold turn? at hturn
  rw [hread] at hturn
  dsimp only at hturn
  split at hturn
  · cases hturn
    exact .inl rfl
  next hmounted =>
    have hnone : c.session.mounted = none := Option.not_isSome_iff_eq_none.1 hmounted
    cases hturn
    -- Without a place in the registry, a session that has just mounted is unmounted again.
    unfold unmountedTurn
    dsimp only
    split
    · exact .inl rfl
    · split
      · exact .inl rfl
      · exact .inr ⟨hnone, rfl⟩

theorem renameSource_turn? {store : Store} {request : Request} {rest : Incoming}
    {delivered : Bool} {turn : Turn} (htidy : c.session.Tidy)
    (hread : c.incoming.readRequest store.settings = .ok (request, rest))
    (hturn : c.turn? store delivered = some turn) :
    turn.connection.session.Tidy ∧ turn.connection.session.renameSource =
      (Taken.execution store.settings ⟨c.session, store.tree, request⟩).session.renameSource := by
  rcases session_turn? hread hturn with heq | ⟨hnone, heq⟩
  · rw [heq]
    exact ⟨Taken.tidy_execution (r := ⟨c.session, store.tree, request⟩) store.settings htidy, rfl⟩
  · rw [heq, Taken.renameSource_of_unmounted store.settings htidy hnone]
    exact ⟨fun _ => rfl, rfl⟩

theorem Took.renameSource_iff (h : Took settings c log) :
    c.session.Tidy ∧
      ∀ source, c.session.renameSource = some source ↔ Waiting settings log source := by
  induction h with
  | start peer =>
    refine ⟨fun _ => rfl, fun source => ?_⟩
    constructor
    · intro hsource
      cases hsource
    · rintro ⟨passed, origin, older, hlog, -⟩
      cases passed <;> cases hlog
  | arrive h more ih => exact ih
  | @turn c log h hopen store hsettings request rest hread delivered turn hturn ih =>
    obtain ⟨htidy, hwaiting⟩ := ih
    subst hsettings
    obtain ⟨htidy', hsource⟩ := renameSource_turn? htidy hread hturn
    refine ⟨htidy', fun source => ?_⟩
    rw [hsource]
    -- A request that was passed over leaves the session alone and is skipped in the history.
    by_cases hpassed : Taken.PassedOver ⟨c.session, store.tree, request⟩
    · rw [Taken.session_of_passedOver hpassed, waiting_cons_of_passedOver hpassed]
      exact hwaiting source
    · rw [Taken.renameSource_of_not_passedOver htidy hpassed,
        waiting_cons_of_not_passedOver hpassed]

theorem Took.of_suffix (h : Took settings c log) {r : Taken} {earlier : List Taken}
    (hr : r :: earlier <:+ log) : ∃ c', c'.session = r.session ∧ Took settings c' earlier := by
  induction h with
  | start peer => exact absurd (List.suffix_nil.1 hr) (List.cons_ne_nil r earlier)
  | arrive h more ih => exact ih hr
  | turn h hopen hsettings hread hturn ih =>
    rcases List.suffix_cons_iff.1 hr with heq | hr
    · cases heq
      exact ⟨_, rfl, h⟩
    · exact ih hr

end Connection

/-! ## Renames -/

/-- A rename takes the source that waits in the history before it, asks the volume for it and for
nothing else; without one, nothing is done. -/
structure CompletesWaiting (settings : StoreSettings) (r : Taken) (earlier : List Taken) :
    Prop where
  source : ∀ source, r.Renames source ↔
    (∃ target, r.Targets target) ∧ Waiting settings earlier source
  effect : ∀ source target, r.Renames source → r.Targets target →
    r.execution settings = r.session.clearRenameSource.change r.tree ReplyCode.actionDone
      ("Renamed to " ++ ·) fun volume => volume.rename r.tree source target
  otherwise : ∀ target payload, r.request = .command (.renameTo target) payload →
    (∀ source, ¬ r.Renames source) →
    (∃ error, (r.execution settings).outcome = .failed error) ∧
      (r.execution settings).tree = r.tree

/-- Every rename of the history that succeeds takes its source from the request directly before it.
-/
def RenamesDirectly (settings : StoreSettings) (log : List Taken) : Prop :=
  ∀ r earlier source, r :: earlier <:+ log → r.Renames source → r.succeeds settings = true →
    ∃ origin older, earlier = origin :: older ∧ origin.Announces settings source

namespace Connection

variable {settings : StoreSettings} {c : Connection} {log : List Taken}

theorem Took.completesWaiting (h : Took settings c log) {r : Taken} {earlier : List Taken}
    (hr : r :: earlier <:+ log) : CompletesWaiting settings r earlier := by
  obtain ⟨c', hsession, hbefore⟩ := h.of_suffix hr
  have hwaiting := hbefore.renameSource_iff.2
  rw [hsession] at hwaiting
  constructor
  · intro source
    unfold Taken.Renames
    rw [← hwaiting source]
  · rintro source target ⟨-, hsource⟩ ⟨hmounted, payload, hrequest⟩
    have hexecution : r.execution settings = r.session.renameTo r.tree target := by
      unfold Taken.execution
      rw [hrequest]
      exact Session.execute_of_isMounted hmounted
    rw [hexecution, Session.renameTo_of_some hsource]
  · intro target payload hrequest hnone
    by_cases hpassed : r.PassedOver
    · obtain ⟨error, hrefused⟩ := Taken.execution_of_passedOver settings hpassed
      rw [hrefused]
      exact ⟨⟨error, rfl⟩, rfl⟩
    -- The request is carried out: with a volume it finds no source, and without one it is refused.
    rcases Taken.execution_of_not_passedOver settings hpassed with
      ⟨hmounted, command, payload', hcommand, heq⟩ | ⟨-, command, payload', hcommand, heq⟩
    · cases hrequest.symm.trans hcommand
      have hfree : r.session.renameSource = none := by
        apply Option.eq_none_iff_forall_ne_some.2
        intro source hsource
        exact hnone source ⟨⟨target, hmounted, payload', hrequest⟩, hsource⟩
      have hrefused : r.session.executeMounted settings r.tree (.renameTo target) payload' =
          r.session.refuse r.tree _ := Session.renameTo_of_none hfree r.tree target
      rw [heq, hrefused]
      exact ⟨⟨_, rfl⟩, rfl⟩
    · cases hrequest.symm.trans hcommand
      rw [heq]
      exact ⟨⟨_, rfl⟩, rfl⟩

/-- On every connection a rename completes what waits. It takes its source from the request directly
before it exactly when no rename succeeds behind a request that was passed over while a source
waited. -/
theorem renamesDirectly_iff (h : Took settings c log) :
    (∀ r earlier, r :: earlier <:+ log → CompletesWaiting settings r earlier) ∧
      (RenamesDirectly settings log ↔
        ∀ r p earlier source, r :: p :: earlier <:+ log → (∃ target, r.Targets target) →
          p.PassedOver → Waiting settings earlier source → r.succeeds settings = false) := by
  refine ⟨fun r earlier hr => h.completesWaiting hr, ?_⟩
  constructor
  · intro hdirect r p earlier source hr htarget hpassed hwaiting
    have hrenames : r.Renames source :=
      ((h.completesWaiting hr).source source).2
        ⟨htarget, (waiting_cons_of_passedOver hpassed).2 hwaiting⟩
    apply Bool.eq_false_iff.2
    intro hsucceeds
    obtain ⟨origin, older, heq, horigin⟩ := hdirect r _ source hr hrenames hsucceeds
    cases heq
    exact Taken.not_announces_of_passedOver hpassed horigin
  -- With a line passed over in between, the rename would have failed.
  · intro hnever r earlier source hr hrenames hsucceeds
    obtain ⟨htarget, passed, origin, older, rfl, hpassed, horigin⟩ :=
      ((h.completesWaiting hr).source source).1 hrenames
    cases passed with
    | nil => exact ⟨origin, older, rfl, horigin⟩
    | cons p passed =>
      have hwaiting : Waiting settings (passed ++ origin :: older) source :=
        ⟨passed, origin, older, rfl, fun q hq => hpassed q (List.mem_cons_of_mem _ hq), horigin⟩
      have hfails := hnever r p _ source hr htarget (hpassed p List.mem_cons_self) hwaiting
      rw [hsucceeds] at hfails
      cases hfails

/-! ## Histories of frames -/

/-- What is taken when a session is given frames, none behind a quit. The requests come in front of
a history, the newest first. -/
def takenOf (settings : StoreSettings) (s : Session) (t : Host.Tree) :
    List Frame → List Taken → List Taken
  | [], log => log
  | f :: frames, log =>
    let r : Taken := ⟨s, t, f.request settings⟩
    let e := r.execution settings
    if e.outcome.isClosing then r :: log else takenOf settings e.session e.tree frames (r :: log)

theorem Took.takenOf {store : Store} (frames : List Frame)
    (hroom : store.settings.maxCommandLength.toNat + 2 < UInt64.size)
    (hframes : ∀ f ∈ frames, f.Whole store.settings.maxCommandLength)
    (h : Took store.settings c log) (hready : c.Ready store) {ended : Bool}
    (hin : c.incoming = ⟨frames.flatMap Frame.bytes, ended⟩) :
    ∃ c', Took store.settings c' (takenOf store.settings c.session store.tree frames log) := by
  -- The induction is on the frames: a turn takes the first one, and unless the session ends, the
  -- connection is ready for the others with one request more in its history.
  induction frames generalizing store c log with
  | nil => exact ⟨c, h⟩
  | cons f frames ih =>
    rw [List.flatMap_cons] at hin
    have hwhole := hframes f List.mem_cons_self
    obtain ⟨turn, hturn, hserves⟩ := hready.turn? hwhole hroom hin
    have hread : c.incoming.readRequest store.settings =
        .ok (f.request store.settings, ⟨frames.flatMap Frame.bytes, ended⟩) := by
      rw [hin]
      exact hwhole.readRequest hroom _ _
    have htook := Took.turn h hready.isOpen rfl hread hturn
    unfold Connection.takenOf
    dsimp only
    split
    · exact ⟨_, htook⟩
    next hopen =>
      have hexecution : Taken.execution store.settings
          ⟨c.session, store.tree, f.request store.settings⟩ =
          c.session.runLine store.settings store.tree f.line f.payload :=
        Session.serve_request _ _ _ f
      rw [hexecution] at hopen ⊢
      rw [← hserves.session, ← hserves.tree, ← hserves.settings_eq]
      refine ih ?_ ?_ ?_ (hserves.ready (Bool.not_eq_true _ ▸ hopen)) hserves.incoming
      · rw [hserves.settings_eq]
        exact hroom
      · rw [hserves.settings_eq]
        exact fun g hg => hframes g (List.mem_cons_of_mem _ hg)
      · rw [hserves.settings_eq]
        exact htook

/-! ## A line that is no command between the two requests -/

def servingOne : Store where
  settings := {}
  tree :=
    { nodes := [([Text.encode "store_root"], .directory),
        ([Text.encode "store_root", Text.encode "ltptest"], .directory),
        ([Text.encode "store_root", Text.encode "ltptest", Text.encode "a"], .directory)] }
  registry := { limit := 64 }

/-- A client sends a line without the path that it needs between the two requests of a rename. -/
def interruptedRename : List Frame :=
  [⟨"MOUNT ltptest", true, []⟩, ⟨"RNFR /a", true, []⟩, ⟨"STAT", true, []⟩, ⟨"RNTO /b", true, []⟩]

theorem whole_interruptedRename : ∀ f ∈ interruptedRename, f.Whole 4096 := by
  have hlawful : ∀ f ∈ interruptedRename, Text.byteLength f.line.toList ≤ 4096 ∧
      '\n' ∉ f.line.toList ∧ f.line.toList.getLast? ≠ some '\r' ∧
      f.payload.length = Frame.announced f.line := by decide +kernel
  intro f hf
  obtain ⟨hshort, hline, hbare, hcomplete⟩ := hlawful f hf
  exact ⟨⟨hshort, hline, hbare⟩, hcomplete⟩

def interruptedLog : List Taken :=
  takenOf {} (ofPeer { tcpPort := 40000 }).session servingOne.tree interruptedRename []

theorem took_interruptedLog : ∃ c', Took {} c' interruptedLog := by
  have hstart : Took servingOne.settings (ofPeer { tcpPort := 40000 }) [] := .start _
  have harrive := hstart.arrive ⟨interruptedRename.flatMap Frame.bytes, false⟩
  have hready : Ready servingOne { ofPeer { tcpPort := 40000 } with
      incoming := ⟨interruptedRename.flatMap Frame.bytes, false⟩ } :=
    ⟨rfl, .inr (by decide)⟩
  exact harrive.takenOf interruptedRename (by decide) whole_interruptedRename hready rfl

def command? (r : Taken) : Option Command :=
  match r.request with
  | .command command (.ok _) => some command
  | _ => none

theorem request_of_command? {r : Taken} {command : Command} (h : command? r = some command) :
    ∃ payload, r.request = .command command (.ok payload) := by
  unfold command? at h
  split at h
  next heq =>
    cases h
    exact ⟨_, heq⟩
  · cases h

theorem interruptedLog_eq :
    interruptedLog.map (fun r =>
        (r.session.isMounted, r.session.renameSource, command? r, r.succeeds {})) =
      [(true, some "/a", some (.renameTo "/b"), true), (true, some "/a", none, false),
        (true, none, some (.renameFrom "/a"), true),
        (false, none, some (.mount "ltptest"), true)] := by
  decide +kernel

theorem renamesDirectly_iff_interruptedLog :
    ∃ c' : Connection, Took {} c' interruptedLog ∧
      (RenamesDirectly {} interruptedLog ↔
        ∀ r p earlier source, r :: p :: earlier <:+ interruptedLog →
          (∃ target, r.Targets target) → p.PassedOver → Waiting {} earlier source →
          r.succeeds {} = false) := by
  obtain ⟨c', htook⟩ := took_interruptedLog
  exact ⟨c', htook, (renamesDirectly_iff htook).2⟩

/-- Not every rename takes its source from the request directly before it: behind a line that is no
command the source still waits. -/
theorem not_forall_renamesDirectly :
    ¬ ∀ (settings : StoreSettings) (c : Connection) (log : List Taken), Took settings c log →
      RenamesDirectly settings log := by
  intro h
  obtain ⟨c', htook⟩ := took_interruptedLog
  have hdirect := h {} c' interruptedLog htook
  obtain ⟨r, more, hlog, hr, hmore⟩ := List.map_eq_cons_iff.1 interruptedLog_eq
  obtain ⟨p, older, rfl, hp, -⟩ := List.map_eq_cons_iff.1 hmore
  simp only [Prod.mk.injEq] at hr hp
  obtain ⟨hmounted, hsource, hcommand, hsucceeds⟩ := hr
  obtain ⟨payload, hrequest⟩ := request_of_command? hcommand
  have hrenames : r.Renames "/a" := ⟨⟨"/b", hmounted, payload, hrequest⟩, hsource⟩
  obtain ⟨origin, rest, heq, path, payload', horigin, -⟩ :=
    hdirect r (p :: older) "/a" (hlog ▸ List.suffix_refl _) hrenames hsucceeds
  cases heq
  -- The request directly before the rename is no command at all.
  have hfrom : command? p = some (.renameFrom path) := by
    unfold command?
    rw [horigin]
  rw [hp.2.2.1] at hfrom
  cases hfrom

end Connection

end VolumeStore

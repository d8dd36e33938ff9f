import VolumeStore.Proofs.Client.Batches

/-!
# Checked paths

A call looks at all of its paths before it does anything else. With a path that cannot be used it
fails, and nothing else happens; otherwise every request that it sends has the canonical form of the
path that was written, which is one line and which a store reads as the same path.
-/

namespace VolumeStore

open Client

namespace VolumePath

variable {written path : String}

def refusal? (written : String) : Option VolumeError :=
  match normalize written with
  | .ok _ => none
  | .error error => some error

theorem refusal?_eq_some_iff {error : VolumeError} :
    refusal? written = some error ↔ normalize written = .error error := by
  unfold refusal?
  cases normalize written <;> simp

theorem refusal?_eq_none_iff : refusal? written = none ↔ ∃ path, normalize written = .ok path := by
  unfold refusal?
  cases normalize written <;> simp

end VolumePath

/-- The request has the canonical form `path` of a written path, without an end of a line, and it
reaches a store with this path, which is canonical there as well. -/
structure ClientRequest.Carries (r : ClientRequest) (written path : String) : Prop where
  text : r.command.text? = some path
  canonical : VolumePath.normalize written = .ok path
  plain : '\x00' ∉ path.toList ∧ '\r' ∉ path.toList ∧ '\n' ∉ path.toList
  fixed : VolumePath.normalize path = .ok path
  delivers : r.Delivers

theorem ClientRequest.Proper.carries {r : ClientRequest} {written path : String}
    (hproper : r.Proper) (htext : r.command.text? = some path)
    (hpath : VolumePath.normalize written = .ok path) : r.Carries written path where
  text := htext
  canonical := hpath
  plain := ⟨VolumePath.notMem_of_normalize hpath rfl, VolumePath.notMem_of_normalize hpath rfl,
    VolumePath.notMem_of_normalize hpath rfl⟩
  fixed := VolumePath.normalize_of_normalize hpath
  delivers := hproper.delivers

/-! ## The paths of calls -/

namespace ClientCall

/-- The paths of a call as they are written, each with the verb of the requests that it goes into.
-/
def paths : ClientCall → List (Verb × String)
  | makeDirectories path => [(.makeDirectory, path)]
  | createFile path _ => [(.create, path)]
  | appendFile path _ => [(.append, path)]
  | stat path => [(.stat, path)]
  | removeDirectory path _ => [(.removeDirectory, path)]
  | deleteFile path => [(.delete, path)]
  | rename source target => [(.renameFrom, source), (.renameTo, target)]
  | listDirectory path => [(.list, path)]
  | openFile path _ => [(.openFile, path)]
  | _ => []

def pathError? (call : ClientCall) : Option VolumeError :=
  call.paths.findSome? fun entry => VolumePath.refusal? entry.2

def outcome {σ : Type} (n : Network σ) : ClientCall → Call σ Unit
  | makeDirectories path => Client.makeDirectories n path
  | createFile path size => Client.createFile n path size
  | appendFile path data => Client.appendFile n path data
  | stat path => andThen (Client.stat n path) fun _ => .ok ()
  | removeDirectory path recursive => Client.removeDirectory n path recursive
  | deleteFile path => Client.deleteFile n path
  | rename source target => Client.rename n source target
  | listDirectory path => andThen (Client.listDirectory n path) fun _ => .ok ()
  | openFile path flags => andThen (Client.openFile n path flags) fun _ => .ok ()
  | writeFile file offset data => andThen (Client.writeFile n file offset data) fun _ => .ok ()
  | readFrom file offset len => andThen (Client.readFrom n file offset len) fun _ => .ok ()
  | flushFile file => Client.flushFile n file
  | closeFile file => Client.closeFile n file
  | ping => Client.ping n
  | close => fun o => (.ok (), Client.close n o)

end ClientCall

namespace Client

variable {σ α β : Type} {n : Network σ} {o o' : Online σ} {written path : String}

/-! ## Checks before anything else -/

theorem andThen_of_error {call : Call σ α} {next : α → Except ClientError β} {error : ClientError}
    (h : call o = (.error error, o')) : andThen call next o = (.error error, o') := by
  unfold andThen
  rw [h]

theorem withPath_of_error {next : String → Call σ α} {error : VolumeError}
    (h : VolumePath.normalize written = .error error) (o : Online σ) :
    withPath written next o = (.error (.invalidPath error), o) := by
  unfold withPath
  rw [h]

end Client

namespace ClientCall

variable {σ : Type} {call : ClientCall}

theorem snd_outcome (n : Network σ) (o : Online σ) (call : ClientCall) :
    (call.outcome n o).2 = call.run n o := by
  cases call with
  | stat | listDirectory | openFile | writeFile | readFrom => exact snd_andThen _ _ o
  | _ => rfl

theorem outcome_of_pathError? (n : Network σ) (o : Online σ) {error : VolumeError}
    (h : call.pathError? = some error) : call.outcome n o = (.error (.invalidPath error), o) := by
  have hone : ∀ {verb : Verb} {written : String}, call.paths = [(verb, written)] →
      VolumePath.normalize written = .error error := by
    intro verb written hpaths
    rw [pathError?, hpaths, List.findSome?_singleton] at h
    exact VolumePath.refusal?_eq_some_iff.1 h
  cases call with
  | makeDirectories | createFile | appendFile | removeDirectory | deleteFile =>
    exact withPath_of_error (hone rfl) o
  | stat | listDirectory | openFile => exact andThen_of_error (withPath_of_error (hone rfl) o)
  | rename source target =>
    -- Both paths are checked, the source first, before either of the requests.
    have hboth : (VolumePath.refusal? source).or (VolumePath.refusal? target) = some error := by
      rw [← h, pathError?, paths, List.findSome?_cons, List.findSome?_singleton]
      cases VolumePath.refusal? source <;> rfl
    cases hsource : VolumePath.normalize source with
    | error =>
      rw [VolumePath.refusal?_eq_some_iff.2 hsource] at hboth
      cases hboth
      exact withPath_of_error hsource o
    | ok =>
      rw [VolumePath.refusal?_eq_none_iff.2 ⟨_, hsource⟩] at hboth
      exact (withPath_of_ok hsource o).trans
        (withPath_of_error (VolumePath.refusal?_eq_some_iff.1 hboth) o)
  | _ => cases h

theorem exists_normalize_of_pathError? (h : call.pathError? = none) {entry : Verb × String}
    (hentry : entry ∈ call.paths) : ∃ path, VolumePath.normalize entry.2 = .ok path :=
  VolumePath.refusal?_eq_none_iff.1 (List.findSome?_eq_none_iff.1 h entry hentry)

end ClientCall

/-! ## What calls on paths send -/

namespace Client

variable {σ α β : Type} {n : Network σ} {o : Online (σ × List (List UInt8))} {c : ClientLine}
  {p : ClientRequest → Prop}

/-- On a network that keeps a record, the call sends requests of a kind, and one at least when the
client has room for a payload. -/
def Sends (p : ClientRequest → Prop) (o : Online (σ × List (List UInt8)))
    (call : Call (σ × List (List UInt8)) α) : Prop :=
  ∃ requests, (o.client.settings.maxPayload ≠ 0 → requests ≠ []) ∧
    Counted o requests (call o).2 ∧ ∀ r ∈ requests, p r

theorem sends_exchange (hconnection : o.client.connection = some c) {r : ClientRequest}
    (h : p r) : Sends p o (exchange n.recording r) :=
  ⟨[r], fun _ => List.cons_ne_nil r [], counted_exchange n hconnection r,
    List.forall_mem_singleton.2 h⟩

theorem sends_batch (hconnection : o.client.connection = some c) {requests : List ClientRequest}
    (hsome : o.client.settings.maxPayload ≠ 0 → requests ≠ []) (h : ∀ r ∈ requests, p r) :
    Sends p o (batch n.recording requests) := by
  cases requests with
  | nil => exact ⟨[], hsome, .refl o, h⟩
  | cons r requests =>
    obtain ⟨sent, hfront, hcounted⟩ := exists_counted_batch n hconnection r requests
    exact ⟨r :: sent, fun _ => List.cons_ne_nil r sent, hcounted,
      fun other hother => h other (hfront.subset hother)⟩

theorem Sends.andThen {call : Call (σ × List (List UInt8)) α} {next : α → Except ClientError β}
    (h : Sends p o call) : Sends p o (andThen call next) := by
  unfold Sends
  rw [snd_andThen]
  exact h

theorem Sends.of_withPath {next : String → Call (σ × List (List UInt8)) α} {written path : String}
    (hpath : VolumePath.normalize written = .ok path) (h : Sends p o (next path)) :
    Sends p o (withPath written next) := by
  unfold Sends
  rw [withPath_of_ok hpath]
  exact h

end Client

namespace ClientCall

variable {σ : Type} {n : Network σ} {o : Online (σ × List (List UInt8))} {c : ClientLine}
  {call : ClientCall}

/-- The request carries one of the paths of the call, and it has the verb for it. -/
def Asks (call : ClientCall) (r : ClientRequest) : Prop :=
  ∃ written path, (r.command.verb, written) ∈ call.paths ∧ r.Carries written path

theorem sends_outcome (hconnection : o.client.connection = some c) (hpaths : call.paths ≠ [])
    (hok : call.pathError? = none)
    (hflags : ∀ path flags, call = .openFile path flags → flags.fault? = none) :
    Sends call.Asks o (call.outcome n.recording) := by
  have hasks : ∀ {r : ClientRequest} {written path : String},
      VolumePath.normalize written = .ok path → (r.command.verb, written) ∈ call.paths →
      r.command.text? = some path → r.Proper → call.Asks r :=
    fun hpath hmem htext hproper => ⟨_, _, hmem, hproper.carries htext hpath⟩
  -- The calls that ask for no path have been excluded; every other one goes on with the canonical
  -- forms of its paths to what it sends.
  cases call with
  | makeDirectories | createFile | removeDirectory | deleteFile =>
    obtain ⟨path, hpath⟩ := exists_normalize_of_pathError? hok List.mem_cons_self
    refine .of_withPath hpath (sends_exchange hconnection ?_).andThen
    refine hasks hpath List.mem_cons_self rfl ?_
    exact ClientRequest.proper_of_normalize hpath rfl nofun nofun rfl
  | stat | listDirectory =>
    obtain ⟨path, hpath⟩ := exists_normalize_of_pathError? hok List.mem_cons_self
    refine (Sends.of_withPath hpath (sends_exchange hconnection ?_).andThen).andThen
    refine hasks hpath List.mem_cons_self rfl ?_
    exact ClientRequest.proper_of_normalize hpath rfl nofun nofun rfl
  | appendFile written data =>
    obtain ⟨path, hpath⟩ := exists_normalize_of_pathError? hok List.mem_cons_self
    refine .of_withPath hpath (sends_batch hconnection (fun hlimit => ?_) fun r hr => ?_).andThen
    · rw [appendRequests_eq, ne_eq, List.map_eq_nil_iff]
      exact appendPieces_ne_nil (UInt64.pos_iff_ne_zero.2 hlimit) data
    · have hproper := proper_of_mem_appendRequests hpath hr
      rw [appendRequests_eq] at hr
      obtain ⟨piece, -, rfl⟩ := List.mem_map.1 hr
      exact hasks hpath List.mem_cons_self rfl hproper
  | rename source target =>
    obtain ⟨path, hpath⟩ := exists_normalize_of_pathError? hok List.mem_cons_self
    obtain ⟨goal, hgoal⟩ := exists_normalize_of_pathError? hok
      (List.mem_cons_of_mem _ List.mem_cons_self)
    refine .of_withPath hpath (.of_withPath hgoal
      (sends_batch hconnection (fun _ => List.cons_ne_nil _ _) fun r hr => ?_).andThen)
    rcases List.mem_pair.1 hr with rfl | rfl
    · exact hasks hpath List.mem_cons_self rfl
        (ClientRequest.proper_of_normalize hpath rfl nofun nofun rfl)
    · exact hasks hgoal (List.mem_cons_of_mem _ List.mem_cons_self) rfl
        (ClientRequest.proper_of_normalize hgoal rfl nofun nofun rfl)
  | openFile written flags =>
    obtain ⟨path, hpath⟩ := exists_normalize_of_pathError? hok List.mem_cons_self
    -- A client asks for nothing with flags that cannot be used.
    have husable : flags.fault? = none := hflags written flags rfl
    have hsends : Sends (openFile written flags).Asks o
        (exchange n.recording { command := .openFile flags path }) := by
      refine sends_exchange hconnection (hasks hpath List.mem_cons_self rfl
        (ClientRequest.proper_of_normalize hpath rfl nofun ?_ rfl))
      intro _ h
      cases h
      exact husable
    refine (Sends.of_withPath hpath ?_).andThen
    unfold Sends
    dsimp only
    rw [husable]
    exact hsends.andThen
  | _ => exact absurd rfl hpaths

/-- A call on paths, of a client with a connection. With a path that cannot be used it fails for
that reason; nothing is sent, and the client and the network are as before. When all paths can be
used, and the flags with which a file is to be opened, it sends requests, at least one from a client
with room for a payload. Each of them has the canonical form of the path that was written for its
verb: a text without a line end or a null character, which the store reads from the line as it is
and which is canonical there as well. -/
theorem paths_checked_and_canonical (n : Network σ) (o : Online (σ × List (List UInt8)))
    (c : ClientLine) (hconnection : o.client.connection = some c) (call : ClientCall)
    (hpaths : call.paths ≠ []) :
    (∀ error, call.pathError? = some error →
      call.outcome n.recording o = (.error (.invalidPath error), o)) ∧
    (call.pathError? = none →
      (∀ path flags, call = .openFile path flags → flags.fault? = none) →
      ∃ requests, (o.client.settings.maxPayload ≠ 0 → requests ≠ []) ∧
        Counted o requests (call.run n.recording o) ∧
        ∀ r ∈ requests, ∃ written path,
          (r.command.verb, written) ∈ call.paths ∧ r.Carries written path) := by
  refine ⟨fun _ herror => outcome_of_pathError? n.recording o herror, fun hok hflags => ?_⟩
  rw [← snd_outcome]
  exact sends_outcome hconnection hpaths hok hflags

def renamer : Online (ScriptedPeer × List (List UInt8)) where
  client := { settings := {}, connection := some ⟨0, {}⟩ }
  network :=
    ({ script :=
        [⟨Text.encode "350 Go on\r\n", false⟩, ⟨Text.encode "250 Renamed\r\n", false⟩] }, [])

theorem paths_checked_and_canonical_renamer :
    renamer.client.connection = some ⟨0, {}⟩ ∧
      (rename "/a" "/b/../c").outcome ScriptedPeer.network.recording renamer =
        (.error (.invalidPath (.pathTraversal "/b/../c")), renamer) ∧
      ∃ requests, requests ≠ [] ∧
        Counted renamer requests
          ((rename "//a b/" "/./c").run ScriptedPeer.network.recording renamer) ∧
        ∀ r ∈ requests, ∃ written path,
          (r.command.verb, written) ∈ [(.renameFrom, "//a b/"), (.renameTo, "/./c")] ∧
            r.Carries written path := by
  have hrefused : (rename "/a" "/b/../c").pathError? = some (.pathTraversal "/b/../c") := by
    decide +kernel
  have hok : (rename "//a b/" "/./c").pathError? = none := by decide +kernel
  obtain ⟨requests, hsome, hsent⟩ := (paths_checked_and_canonical ScriptedPeer.network renamer
    ⟨0, {}⟩ rfl (rename "//a b/" "/./c") (List.cons_ne_nil _ _)).2 hok nofun
  exact ⟨rfl, (paths_checked_and_canonical ScriptedPeer.network renamer ⟨0, {}⟩ rfl
    (rename "/a" "/b/../c") (List.cons_ne_nil _ _)).1 _ hrefused, requests, hsome (by decide),
    hsent⟩

end ClientCall

end VolumeStore

import VolumeStore.Proofs.Client.AppendRequests
import VolumeStore.Proofs.Record.StatRecords

/-!
# Records through a client

A record that a volume gives of an entry can be told from its written form, so a client that asks
for it gets just this record. Whatever a far end answers, what a client takes for a record is one
that can be told from its written form, and every such record may come to it.
-/

namespace VolumeStore

open Client

/-! ## Records of a volume -/

namespace Volume

variable {v : Volume} {t : Host.Tree} {path : String} {p : VolumePath} {record : StatRecord}

theorem legible_describe (t : Host.Tree) (loc : Host.Location) (node : Host.Node) :
    (t.describe loc node).Legible where
  atime := Timestamp.legible_ofClock _ _
  mtime := Timestamp.legible_ofClock _ _
  ctime := Timestamp.legible_ofClock _ _

theorem stat_of_parse (h : VolumePath.parse path = .ok p) :
    v.stat t p.render = v.stat t path := by
  unfold stat confine
  rw [VolumePath.parse_render h, h]

theorem exists_parse_of_stat (h : v.stat t path = .ok record) :
    ∃ p, VolumePath.parse path = .ok p := by
  obtain ⟨p, hconfine, -⟩ := bind_eq_ok_iff.1 h
  unfold confine at hconfine
  split at hconfine
  · cases hconfine
  next p hparse => exact ⟨p, hparse⟩

theorem legible_of_stat (h : v.stat t path = .ok record) : record.Legible := by
  obtain ⟨p, -, hentry⟩ := bind_eq_ok_iff.1 h
  split at hentry
  next loc node _ =>
    cases hentry
    exact legible_describe t loc node
  · split at hentry <;> cases hentry

end Volume

namespace Session

variable {s : Session} {settings : StoreSettings} {t : Host.Tree} {v : Volume} {path : String}
  {record : StatRecord} {payload : List UInt8}

theorem executeMounted_stat (hvolume : s.volume = .ok v) (hstat : v.stat t path = .ok record) :
    s.executeMounted settings t (.stat path) payload =
      ⟨.ok ReplyCode.fileStatus record.render, s.clearRenameSource, t⟩ := by
  have hkept : s.clearRenameSource.volume = .ok v := hvolume
  show s.clearRenameSource.statEntry t path = _
  rw [statEntry, withVolume_of_ok hkept, hstat]
  rfl

theorem stat_of_not_failed (hvolume : s.volume = .ok v)
    (hunrefused : ∀ error,
      (s.executeMounted settings t (.stat path) payload).outcome ≠ .failed error) :
    ∃ record, v.stat t path = .ok record := by
  cases hstat : v.stat t path with
  | ok record => exact ⟨record, rfl⟩
  | error error =>
    have hkept : s.clearRenameSource.volume = .ok v := hvolume
    refine absurd ?_ (hunrefused (.volume error))
    show (s.clearRenameSource.statEntry t path).outcome = _
    rw [statEntry, withVolume_of_ok hkept, hstat]
    rfl

end Session

namespace Client

/-! ## What a client takes for a record -/

section

variable {σ : Type} {n : Network σ} {o : Online σ} {path : String} {p : VolumePath}
  {record : StatRecord}

theorem stat_eq (h : VolumePath.parse path = .ok p) :
    stat n path o = andThen (exchange n { command := .stat p.render }) statOf o :=
  withPath_of_ok (VolumePath.normalize_of_parse h) o

theorem exists_parse_of_stat (h : (stat n path o).1 = .ok record) :
    ∃ p, VolumePath.parse path = .ok p := by
  unfold stat withPath at h
  split at h
  next written hpath =>
    obtain ⟨p, hparse, -⟩ := VolumePath.exists_parse_of_normalize hpath
    exact ⟨p, hparse⟩
  · cases h

theorem statOf_render (h : record.Legible) :
    statOf { reply := ⟨ReplyCode.fileStatus, record.render⟩ } = .ok record := by
  rw [statOf, if_pos rfl, onWire, StatRecord.parse_render.2 h]
  rfl

theorem parse_of_statOf {response : Response} (h : statOf response = .ok record) :
    StatRecord.parse response.reply.text = .ok record := by
  unfold statOf at h
  split at h
  · exact mapError_eq_ok_iff.1 h
  · cases h

end

def repeating : Network Incoming where
  dial answer _ := .ok ((0, answer), answer)
  send answer _ _ := (answer, answer)
  hangUp answer _ := answer

def waiting : Client where
  settings := {}
  connection := some ⟨0, {}⟩

theorem exchange_repeating {request : ClientRequest} {answer rest : Incoming} {response : Response}
    (hread : Response.read request.command answer = .ok (response, rest))
    (hpositive : response.reply.isPositive = true) :
    ∃ o, exchange repeating request ⟨waiting, answer⟩ = (.ok response, o) := by
  have harrived : Response.read request.command (Incoming.append {} answer) =
      .ok (response, rest) := hread
  have hexchange := exchange_of_positive (n := repeating) (o := ⟨waiting, answer⟩) rfl harrived
    hpositive
  exact ⟨_, hexchange⟩

/-- The record may be what a client gets from a far end, whatever that is. -/
def MayGet (record : StatRecord) : Prop :=
  ∃ (σ : Type) (n : Network σ) (o : Online σ) (path : String), (stat n path o).1 = .ok record

theorem mayGet_of_legible {record : StatRecord} (h : record.Legible) : MayGet record := by
  let answer : Incoming := ⟨(Outcome.ok ReplyCode.fileStatus record.render).toBytes, false⟩
  have hparse : VolumePath.parse "/" = .ok ⟨[]⟩ := by decide
  have hread := Response.read_ok (.stat (VolumePath.render ⟨[]⟩))
    (show ReplyCode.IsPlain ReplyCode.fileStatus by decide) record.oneLine_render
  have hpositive : Reply.isPositive ⟨ReplyCode.fileStatus, record.render⟩ = true := rfl
  obtain ⟨o, hexchange⟩ := @exchange_repeating { command := .stat (VolumePath.render ⟨[]⟩) } _ _ _
    hread hpositive
  refine ⟨Incoming, repeating, ⟨waiting, answer⟩, "/", ?_⟩
  rw [stat_eq hparse, andThen_of_ok hexchange, statOf_render h]

theorem mayGet_iff {record : StatRecord} :
    MayGet record ↔ ∃ text, StatRecord.parse text = .ok record := by
  constructor
  · rintro ⟨σ, n, o, path, h⟩
    obtain ⟨p, hparse⟩ := exists_parse_of_stat h
    rw [stat_eq hparse] at h
    obtain ⟨response, -, hrecord⟩ := andThen_eq_ok h
    exact ⟨response.reply.text, parse_of_statOf hrecord⟩
  · -- The text may fill several lines, but the written form of its record takes one.
    rintro ⟨text, htext⟩
    exact mayGet_of_legible (StatRecord.legible_of_parse htext)

/-! ## Records of a store -/

/-- The store takes the line of a request for the record of a path. -/
def TakesStat (settings : StoreSettings) (path : String) : Prop :=
  ∀ p, VolumePath.parse path = .ok p →
    Text.byteLength (Command.stat p.render).toLine.toList ≤ settings.maxCommandLength.toNat

section

variable {o : Online ServedStore} {line : Nat} {s : Session} {v : Volume} {path : String}
  {p : VolumePath} {record : StatRecord}

theorem proper_stat (h : VolumePath.parse path = .ok p) :
    ClientRequest.Proper { command := .stat p.render } :=
  ClientRequest.proper_of_normalize (VolumePath.normalize_of_parse h) rfl nofun nofun rfl

theorem read_stat (path : String) (record : StatRecord) :
    Response.read (.stat path)
        ⟨(Outcome.ok ReplyCode.fileStatus record.render).toBytes, false⟩ =
      .ok ({ reply := ⟨ReplyCode.fileStatus, record.render⟩ }, {}) :=
  Response.read_ok _ (by decide) record.oneLine_render

theorem isPositive_stat (record : StatRecord) :
    Reply.isPositive ⟨ReplyCode.fileStatus, record.render⟩ = true :=
  rfl

theorem execution_stat (hvolume : s.volume = .ok v) (hparse : VolumePath.parse path = .ok p)
    (hstat : v.stat o.network.hub.store.tree path = .ok record) :
    o.execution s { command := .stat p.render } =
      ⟨.ok ReplyCode.fileStatus record.render, s.clearRenameSource, o.network.hub.store.tree⟩ :=
  Session.executeMounted_stat hvolume (by rw [Volume.stat_of_parse hparse, hstat])

theorem stat_eq_ok_of_takesStat (h : o.Steady line s) (hvolume : s.volume = .ok v)
    (htakes : TakesStat o.network.hub.store.settings path)
    (hstat : v.stat o.network.hub.store.tree path = .ok record) :
    (stat ServedStore.network path o).1 = .ok record := by
  obtain ⟨p, hparse⟩ := Volume.exists_parse_of_stat hstat
  obtain ⟨o', hexchange, -⟩ := h.exchange_eq (proper_stat hparse) ⟨htakes p hparse, Nat.zero_le _⟩
    (execution_stat hvolume hparse hstat) (read_stat _ record) (isPositive_stat record) rfl
  rw [stat_eq hparse, andThen_of_ok hexchange, statOf_render (Volume.legible_of_stat hstat)]

theorem of_stat_eq_ok (h : o.Steady line s) (hvolume : s.volume = .ok v)
    (hok : (stat ServedStore.network path o).1 = .ok record) :
    TakesStat o.network.hub.store.settings path ∧
      v.stat o.network.hub.store.tree path = .ok record ∧
      (stat ServedStore.network path o).2.Steady line s.clearRenameSource ∧
      (stat ServedStore.network path o).2.network.hub.store.tree = o.network.hub.store.tree := by
  obtain ⟨p, hparse⟩ := exists_parse_of_stat hok
  rw [stat_eq hparse] at hok ⊢
  obtain ⟨response, hexchange, hrecord⟩ := andThen_eq_ok hok
  -- The store has read the request and refused nothing, so the volume has a record.
  obtain ⟨hfits, hunrefused⟩ := h.of_exchange_eq_ok (proper_stat hparse)
    (congrArg Prod.fst hexchange)
  obtain ⟨told, htold⟩ := Session.stat_of_not_failed hvolume hunrefused
  rw [Volume.stat_of_parse hparse] at htold
  obtain ⟨rfl, hafter, hcarried⟩ := h.after_exchange (proper_stat hparse) hexchange
    (execution_stat hvolume hparse htold) (read_stat _ told) (isPositive_stat told) rfl h.mounted
  have hsame := (statOf_render (Volume.legible_of_stat htold)).symm.trans hrecord
  rw [Except.ok.injEq] at hsame
  subst hsame
  refine ⟨fun q hq => ?_, htold, hafter, hcarried.network.tree⟩
  obtain rfl := Except.ok.inj (hparse.symm.trans hq)
  exact hfits.1

end

end Client

namespace StatRecord

/-- A record can be told from its written form exactly when its points in time have less than a
second of nanoseconds. Every record that is read from a text is such a one, and so is every record
that a volume has. So a linked client that asks for a record gets just the one that the volume has,
as long as the store takes the line of the request. That changes nothing. -/
theorem read_back_exact (record : StatRecord) :
    (parse record.render = .ok record ↔ record.Legible) ∧
      (∀ text, parse text = .ok record → parse record.render = .ok record) ∧
      (∀ (v : Volume) (t : Host.Tree) (path : String),
        v.stat t path = .ok record → record.Legible) ∧
      ∀ (o : Online ServedStore) (line : Nat) (s : Session) (v : Volume) (path : String),
        o.network.hub.Running → o.Linked line s → s.volume = .ok v →
        ((Client.stat ServedStore.network path o).1 = .ok record ↔
          TakesStat o.network.hub.store.settings path ∧
            v.stat o.network.hub.store.tree path = .ok record) ∧
        ((Client.stat ServedStore.network path o).1 = .ok record →
          (Client.stat ServedStore.network path o).2.Steady line s.clearRenameSource ∧
            (Client.stat ServedStore.network path o).2.network.hub.store.tree =
              o.network.hub.store.tree) := by
  refine ⟨parse_render, fun text h => parse_render.2 (legible_of_parse h),
    fun v t path h => Volume.legible_of_stat h, fun o line s v path hrun hlinked hvolume => ?_⟩
  have hsteady := hlinked.steady hrun
  refine ⟨⟨fun hok => ?_, fun h => stat_eq_ok_of_takesStat hsteady hvolume h.1 h.2⟩, fun hok => ?_⟩
  · obtain ⟨htakes, hstat, -⟩ := of_stat_eq_ok hsteady hvolume hok
    exact ⟨htakes, hstat⟩
  · obtain ⟨-, -, hafter⟩ := of_stat_eq_ok hsteady hvolume hok
    exact hafter

def fileRecord : StatRecord where
  ino := 0
  size := 5
  blocks := 1
  blockSize := 4096
  mode := 0o100644
  links := 1
  owner := 0
  group := 0
  atime := {}
  mtime := {}
  ctime := {}

theorem read_back_exact_fileRecord :
    let o := ServedStore.fileClient
    o.network.hub.Running ∧ o.Linked 0 ServedStore.fileSession ∧
      parse fileRecord.render = .ok fileRecord ∧
      (Client.stat ServedStore.network "/./f" o).1 = .ok fileRecord := by
  intro o
  have hrun : o.network.hub.Running :=
    ServedStore.running_meeting ServedStore.stored_servedVolume 1 _
  have hparse : VolumePath.parse "/./f" = .ok ⟨["f"]⟩ := by decide
  have htakes : TakesStat o.network.hub.store.settings "/./f" := by
    intro p hp
    obtain rfl := Except.ok.inj (hparse.symm.trans hp)
    decide +kernel
  have hstat : Volume.stat ⟨({} : StoreSettings).volumePath "ltptest"⟩ o.network.hub.store.tree
      "/./f" = .ok fileRecord := by
    decide +kernel
  obtain ⟨hcodec, -, hlegible, hclient⟩ := read_back_exact fileRecord
  obtain ⟨hgets, -⟩ := hclient o 0 ServedStore.fileSession _ "/./f" hrun
    ServedStore.linked_fileClient rfl
  exact ⟨hrun, ServedStore.linked_fileClient, hcodec.2 (hlegible _ _ _ hstat),
    hgets.2 ⟨htakes, hstat⟩⟩

/-! ## Records of any far end -/

/-- Every record that is read from a text may come to a client, and all its accessors tell what the
numbers of the record say. But the time of the last change is told only up to the last second of
the host's clock. -/
theorem tells_of_parse {text : String} {record : StatRecord} (h : parse text = .ok record) :
    MayGet record ∧ record.Tells :=
  ⟨mayGet_iff.2 ⟨text, h⟩, (legible_of_parse h).tells⟩

/-- The record of a directory whose last change lies in a second that the host's clock has no number
for. -/
def farFuture : StatRecord where
  ino := 2
  size := 0
  blocks := 0
  blockSize := 4096
  mode := 0o40755
  links := 1
  owner := 0
  group := 0
  atime := {}
  mtime := ⟨2 ^ 63, 999999999⟩
  ctime := {}

def farFutureText : String :=
  "ino=2 size=0 blocks=0 blksize=+4096 mode=040755 nlink=1 uid=0 gid=0 atime=0.0 " ++
    "mtime=9223372036854775808.999999999 ctime=0.000000000000"

theorem parse_farFutureText : parse farFutureText = .ok farFuture := by
  decide +kernel

theorem tells_of_parse_farFuture :
    parse farFutureText = .ok farFuture ∧ farFuture.isDir = true ∧
      farFuture.permissions.toNat = 0o755 ∧ farFuture.modified? = none := by
  obtain ⟨-, htells⟩ := tells_of_parse parse_farFutureText
  exact ⟨parse_farFutureText, htells.isDir.2 (by decide), htells.permissions,
    htells.beyond.2 (by decide +kernel)⟩

/-- A record that is read from a text may lack the time of the last change on the host's clock. -/
theorem not_forall_modified?_eq_some :
    ¬ ∀ (text : String) (record : StatRecord), parse text = .ok record →
      record.modified? = some record.mtime := by
  intro hall
  have htold := hall farFutureText farFuture parse_farFutureText
  rw [(Legible.tells (legible_of_parse parse_farFutureText)).modified] at htold
  exact absurd htold (by decide +kernel)

end StatRecord

end VolumeStore

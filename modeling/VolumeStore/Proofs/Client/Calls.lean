import VolumeStore.Proofs.Client.Requests

/-!
# What calls send

Every call on a client, and connecting one, puts whole requests on the network and nothing else, so
nothing that a path, a name or a payload holds is ever taken for a request of its own.
-/

namespace VolumeStore

def Network.recording {σ : Type} (n : Network σ) : Network (σ × List (List UInt8)) where
  dial s address :=
    (n.dial s.1 address).map fun (arrived, network) => (arrived, (network, s.2))
  send s line bytes :=
    let (arrived, network) := n.send s.1 line bytes
    (arrived, (network, s.2 ++ [bytes]))
  hangUp s line := (n.hangUp s.1 line, s.2)

/-! ## Records of requests -/

/-- What was sent between two states of a record are requests of a kind. -/
def Sent (p : ClientRequest → Prop) (before after : List (List UInt8)) : Prop :=
  ∃ requests : List ClientRequest,
    after = before ++ requests.map ClientRequest.toBytes ∧ ∀ r ∈ requests, p r

namespace Sent

variable {p q : ClientRequest → Prop} {a b c : List (List UInt8)}

theorem refl (p : ClientRequest → Prop) (a : List (List UInt8)) : Sent p a a :=
  ⟨[], (List.append_nil a).symm, nofun⟩

theorem one {r : ClientRequest} (h : p r) (a : List (List UInt8)) : Sent p a (a ++ [r.toBytes]) :=
  ⟨[r], rfl, List.forall_mem_singleton.2 h⟩

theorem trans (hab : Sent p a b) (hbc : Sent p b c) : Sent p a c := by
  obtain ⟨first, rfl, hfirst⟩ := hab
  obtain ⟨second, rfl, hsecond⟩ := hbc
  refine ⟨first ++ second, ?_, List.forall_mem_append.2 ⟨hfirst, hsecond⟩⟩
  rw [List.map_append, List.append_assoc]

theorem mono (h : Sent p a b) (hpq : ∀ r, p r → q r) : Sent q a b := by
  obtain ⟨requests, hb, hp⟩ := h
  exact ⟨requests, hb, fun r hr => hpq r (hp r hr)⟩

end Sent

/-! ## Requests of calls -/

namespace ClientRequest

theorem proper_of_numbers {command : Command} (htext : command.text? = none)
    (hpayload : command.payloadLength? = none) : ClientRequest.Proper { command := command } where
  volume name h := by
    change command = .mount name at h
    rw [h] at htext
    cases htext
  path path h := by
    change path ∈ command.text? at h
    rw [htext] at h
    cases h
  flags flags h := by
    cases command with
    | openFile => cases htext
    | _ => cases h
  payload := by
    rw [hpayload]
    rfl

theorem proper_mount {name : String} (h : isVolumeName name = true) :
    ClientRequest.Proper { command := .mount name } where
  volume _ hname := by
    cases hname
    exact h
  path _ _ hmount := absurd rfl (hmount name)
  flags := nofun
  payload := rfl

theorem proper_of_normalize {command : Command} {payload : List UInt8} {written path : String}
    (hpath : VolumePath.normalize written = .ok path) (htext : command.text? = some path)
    (hmount : ∀ name, command ≠ .mount name)
    (hflags : ∀ flags ∈ command.flags?, flags.fault? = none)
    (hpayload : payload.length = (command.payloadLength?.getD 0).toNat) :
    ClientRequest.Proper { command := command, payload := payload } where
  volume name h := absurd h (hmount name)
  path text h _ := by
    rw [htext] at h
    cases h
    exact ⟨written, hpath⟩
  flags := hflags
  payload := hpayload

end ClientRequest

theorem length_le_of_mem_chunks {size : Nat} {data chunk : List UInt8}
    (h : chunk ∈ chunks size data) : chunk.length ≤ size := by
  fun_induction chunks size data with
  | case1 => cases h
  | case2 data hne ih =>
    rcases List.mem_cons.1 h with rfl | h
    · rw [List.length_take]
      exact Nat.min_le_left _ _
    · exact ih h

theorem ne_nil_of_mem_chunks {size : Nat} {data chunk : List UInt8}
    (h : chunk ∈ chunks size data) : chunk ≠ [] := by
  fun_induction chunks size data with
  | case1 => cases h
  | case2 data hne ih =>
    rw [not_or] at hne
    rcases List.mem_cons.1 h with rfl | h
    · intro hnil
      exact (List.take_eq_nil_iff.1 hnil).elim hne.2 hne.1
    · exact ih h

theorem flatten_chunks {size : Nat} (hsize : 0 < size) (data : List UInt8) :
    (chunks size data).flatten = data := by
  fun_induction chunks size data with
  | case1 data h => exact (h.resolve_right (Nat.ne_of_gt hsize)).symm
  | case2 data h ih => rw [List.flatten_cons, ih, List.take_append_drop]

theorem length_chunks {size : Nat} (hsize : 0 < size) (data : List UInt8) :
    (chunks size data).length = (data.length + size - 1) / size := by
  fun_induction chunks size data with
  | case1 data h =>
    rw [h.resolve_right (Nat.ne_of_gt hsize)]
    exact (Nat.div_eq_of_lt (by rw [List.length_nil]; omega)).symm
  | case2 data h ih =>
    have hpos : 0 < data.length := List.length_pos_iff.2 fun hnil => h (.inl hnil)
    rw [List.length_cons, ih, List.length_drop]
    obtain hlt | hle := Nat.lt_or_ge data.length size
    · -- The last piece.
      have hone : data.length + size - 1 = data.length - 1 + size := by omega
      rw [hone, Nat.add_div_right _ hsize, Nat.sub_eq_zero_of_le hlt.le,
        Nat.div_eq_of_lt (by omega), Nat.div_eq_of_lt (by omega)]
    · have hmore : data.length + size - 1 = data.length - size + size - 1 + size := by omega
      rw [hmore, Nat.add_div_right _ hsize]

theorem toNat_ofNat_length_chunk {size : Nat} (hsize : size < UInt64.size)
    {data chunk : List UInt8} (h : chunk ∈ chunks size data) :
    (UInt64.ofNat chunk.length).toNat = chunk.length :=
  UInt64.toNat_ofNat_of_lt' (Nat.lt_of_le_of_lt (length_le_of_mem_chunks h) hsize)

theorem max_one_toNat_lt (limit : UInt64) : max 1 limit.toNat < UInt64.size :=
  Nat.max_lt.2 ⟨by decide, limit.toNat_lt⟩

namespace Client

theorem proper_of_mem_appendRequests {limit : UInt64} {written path : String} {data : List UInt8}
    (hpath : VolumePath.normalize written = .ok path) {r : ClientRequest}
    (hr : r ∈ appendRequests limit.toNat path data) : r.Proper := by
  unfold appendRequests at hr
  split at hr
  · rw [List.mem_singleton.1 hr]
    exact ClientRequest.proper_of_normalize hpath rfl nofun nofun rfl
  · obtain ⟨chunk, hchunk, rfl⟩ := List.mem_map.1 hr
    exact ClientRequest.proper_of_normalize hpath rfl nofun nofun
      (toNat_ofNat_length_chunk limit.toNat_lt hchunk).symm

theorem proper_of_mem_writeRequests {fd offset : UInt64} {pieces : List (List UInt8)}
    (hpieces : ∀ chunk ∈ pieces, (UInt64.ofNat chunk.length).toNat = chunk.length)
    {r : ClientRequest} (hr : r ∈ writeRequests fd offset pieces) : r.Proper := by
  induction pieces generalizing offset with
  | nil => cases hr
  | cons chunk rest ih =>
    rcases List.mem_cons.1 hr with rfl | hr
    · exact
        { volume := nofun
          path := nofun
          flags := nofun
          payload := (hpieces chunk List.mem_cons_self).symm }
    · exact ih (fun chunk h => hpieces chunk (List.mem_cons_of_mem _ h)) hr

/-! ## What calls keep -/

variable {σ α β : Type}

/-- The relation holds between the states before and after the call. -/
def Keeps (R : Online σ → Online σ → Prop) (call : Call σ α) : Prop :=
  ∀ o, R o (call o).2

/-- A relation between states that holds along requests of a kind, one after the other, and along
the end of a session. -/
structure KeptBy (n : Network σ) (p : ClientRequest → Prop) (R : Online σ → Online σ → Prop) :
    Prop where
  refl : ∀ o, R o o
  trans : ∀ {o₁ o₂ o₃}, R o₁ o₂ → R o₂ o₃ → R o₁ o₃
  exchange : ∀ r, p r → Keeps R (exchange n r)
  close : ∀ o, R o (close n o)

variable {n : Network σ} {p : ClientRequest → Prop} {R : Online σ → Online σ → Prop}

theorem snd_andThen (call : Call σ α) (next : α → Except ClientError β) (o : Online σ) :
    (andThen call next o).2 = (call o).2 := by
  unfold andThen
  split
  next heq => rw [heq]
  next heq => rw [heq]

theorem Keeps.andThen {call : Call σ α} {next : α → Except ClientError β} (h : Keeps R call) :
    Keeps R (andThen call next) := fun o => by
  rw [snd_andThen]
  exact h o

namespace KeptBy

theorem batch (h : KeptBy n p R) {requests : List ClientRequest} (hp : ∀ r ∈ requests, p r) :
    Keeps R (batch n requests) := by
  induction requests with
  | nil => exact fun o => h.refl o
  | cons request requests ih =>
    intro o
    have hfirst := h.exchange request (hp request List.mem_cons_self) o
    have hrest := ih fun r hr => hp r (List.mem_cons_of_mem _ hr)
    unfold Client.batch
    split
    next hexchange =>
      rw [hexchange] at hfirst
      exact hfirst
    next hexchange =>
      rw [hexchange] at hfirst
      have hboth := h.trans hfirst (hrest _)
      split
      next hbatch =>
        rw [hbatch] at hboth
        exact hboth
      next hbatch =>
        rw [hbatch] at hboth
        exact hboth

theorem withPath (h : KeptBy n p R) {written : String} {next : String → Call σ α}
    (hnext : ∀ path, VolumePath.normalize written = .ok path → Keeps R (next path)) :
    Keeps R (withPath written next) := by
  intro o
  unfold Client.withPath
  split
  next path hpath => exact hnext path hpath o
  next => exact h.refl o

theorem order (h : KeptBy n p R) {command : Command} (hp : p { command := command }) :
    Keeps R (order n command) :=
  (h.exchange _ hp).andThen

theorem readChunks (h : KeptBy n p R) (file : ClientFile)
    (hp : ∀ offset len, p { command := .read file.fd offset len }) (limit requests : Nat)
    (offset : UInt64) (len : Nat) : Keeps R (readChunks n file limit requests offset len) := by
  -- The induction is on the number of requests that may still be sent.
  induction requests generalizing offset len with
  | zero => exact fun o => h.refl o
  | succ requests ih =>
    intro o
    have hfirst := h.exchange _ (hp offset (UInt64.ofNat (min len limit))) o
    unfold Client.readChunks
    split
    · exact h.refl o
    · dsimp only
      split
      next hexchange =>
        rw [hexchange] at hfirst
        exact hfirst
      next response _ hexchange =>
        rw [hexchange] at hfirst
        split
        · exact hfirst
        · have hboth := h.trans hfirst (ih (offset + UInt64.ofNat response.data.length)
            (len - response.data.length) _)
          split
          next hrest =>
            rw [hrest] at hboth
            exact hboth
          next hrest =>
            rw [hrest] at hboth
            exact hboth

end KeptBy

end Client

/-! ## All calls -/

inductive ClientCall where
  | makeDirectories (path : String)
  | createFile (path : String) (size : UInt64)
  | appendFile (path : String) (data : List UInt8)
  | stat (path : String)
  | removeDirectory (path : String) (recursive : Bool)
  | deleteFile (path : String)
  | rename (source target : String)
  | listDirectory (path : String)
  | openFile (path : String) (flags : OpenFlags)
  | writeFile (file : ClientFile) (offset : UInt64) (data : List UInt8)
  | readFrom (file : ClientFile) (offset len : UInt64)
  | flushFile (file : ClientFile)
  | closeFile (file : ClientFile)
  | ping
  | close

namespace ClientCall

variable {σ : Type}

def run (n : Network σ) (o : Online σ) : ClientCall → Online σ
  | makeDirectories path => (Client.makeDirectories n path o).2
  | createFile path size => (Client.createFile n path size o).2
  | appendFile path data => (Client.appendFile n path data o).2
  | stat path => (Client.stat n path o).2
  | removeDirectory path recursive => (Client.removeDirectory n path recursive o).2
  | deleteFile path => (Client.deleteFile n path o).2
  | rename source target => (Client.rename n source target o).2
  | listDirectory path => (Client.listDirectory n path o).2
  | openFile path flags => (Client.openFile n path flags o).2
  | writeFile file offset data => (Client.writeFile n file offset data o).2
  | readFrom file offset len => (Client.readFrom n file offset len o).2
  | flushFile file => (Client.flushFile n file o).2
  | closeFile file => (Client.closeFile n file o).2
  | ping => (Client.ping n o).2
  | close => Client.close n o

open Client

theorem keeps_run {n : Network σ} {R : Online σ → Online σ → Prop}
    (h : KeptBy n ClientRequest.Proper R) (o : Online σ) (call : ClientCall) :
    R o (call.run n o) := by
  -- A call sends its requests one by one, in a batch, or in pieces; with a path, only when the path
  -- has a canonical form.
  cases call with
  | makeDirectories path | createFile path size | removeDirectory path recursive
  | deleteFile path =>
    refine h.withPath (fun p hp => h.order ?_) o
    exact ClientRequest.proper_of_normalize hp rfl nofun nofun rfl
  | stat path | listDirectory path =>
    refine h.withPath (fun p hp => (h.exchange _ ?_).andThen) o
    exact ClientRequest.proper_of_normalize hp rfl nofun nofun rfl
  | appendFile path data =>
    refine h.withPath (fun p hp o => (h.batch ?_).andThen o) o
    exact fun r hr => proper_of_mem_appendRequests hp hr
  | rename source target =>
    refine h.withPath (fun p hp => h.withPath fun q hq => ?_) o
    apply (h.batch ?_).andThen
    intro r hr
    rcases List.mem_pair.1 hr with rfl | rfl
    · exact ClientRequest.proper_of_normalize hp rfl nofun nofun rfl
    · exact ClientRequest.proper_of_normalize hq rfl nofun nofun rfl
  | openFile path flags =>
    refine h.withPath (fun p hp o => ?_) o
    split
    · exact h.refl o
    next hflags =>
      refine (h.exchange _ ?_).andThen o
      refine ClientRequest.proper_of_normalize hp rfl nofun ?_ rfl
      intro _ h
      cases h
      exact hflags
  | writeFile file offset data =>
    refine (h.batch fun r hr => ?_).andThen o
    exact proper_of_mem_writeRequests
      (fun _ h => toNat_ofNat_length_chunk (max_one_toNat_lt _) h) hr
  | readFrom file offset len =>
    exact h.readChunks file (fun _ _ => ClientRequest.proper_of_numbers rfl rfl) _ _ offset _ o
  | flushFile file | closeFile file | ping =>
    exact h.order (ClientRequest.proper_of_numbers rfl rfl) o
  | close => exact h.close o

def runAll (n : Network σ) (o : Online σ) (calls : List ClientCall) : Online σ :=
  calls.foldl (run n) o

theorem keeps_runAll {n : Network σ} {R : Online σ → Online σ → Prop}
    (h : KeptBy n ClientRequest.Proper R) (o : Online σ) (calls : List ClientCall) :
    R o (runAll n o calls) := by
  induction calls generalizing o with
  | nil => exact h.refl o
  | cons call calls ih => exact h.trans (keeps_run h o call) (ih _)

end ClientCall

/-! ## Calls on a recording network -/

namespace Client

variable {σ : Type}

theorem keptBy_sent (n : Network σ) :
    KeptBy n.recording ClientRequest.Proper fun o o' =>
      Sent ClientRequest.Proper o.network.2 o'.network.2 where
  refl o := .refl _ _
  trans := .trans
  exchange r hr o := by
    unfold exchange
    split
    · exact .refl _ _
    · -- Whatever comes back, nothing more is sent, and hanging up leaves the record as it is.
      have hsent : Sent ClientRequest.Proper o.network.2 (o.network.2 ++ [r.toBytes]) := .one hr _
      dsimp only [Network.recording]
      split
      · exact hsent
      · split <;> exact hsent
  close o := by
    unfold close
    split
    · exact .refl _ _
    · exact .one (ClientRequest.proper_of_numbers rfl rfl) _

theorem keptBy_settings (n : Network σ) (p : ClientRequest → Prop) :
    KeptBy n p fun o o' => o'.client.settings = o.client.settings where
  refl _ := rfl
  trans hfirst hsecond := hsecond.trans hfirst
  exchange r _ o := by
    unfold exchange
    split
    · rfl
    · dsimp only
      split
      · rfl
      · split <;> rfl
  close o := by
    unfold close
    split <;> rfl

end Client

theorem ClientCall.sent_run {σ : Type} (n : Network σ) (o : Online (σ × List (List UInt8)))
    (call : ClientCall) :
    Sent ClientRequest.Proper o.network.2 (call.run n.recording o).network.2 :=
  keeps_run (Client.keptBy_sent n) o call

/-! ## Whole conversations -/

namespace Client

variable {σ : Type}

theorem isVolumeName_of_fault? {settings : ClientSettings} (h : settings.fault? = none) :
    isVolumeName settings.volume = true := by
  unfold ClientSettings.fault? at h
  split at h
  · cases h
  split at h
  · cases h
  next hname => simpa using hname

theorem record_of_dial {n : Network σ} {s s' : σ × List (List UInt8)} {address : String}
    {arrived : Nat × Incoming} (h : dial n.recording s address = .ok (arrived, s')) :
    s'.2 = s.2 := by
  unfold dial at h
  split at h
  · cases h
  next target _ =>
    dsimp only [Network.recording] at h
    cases hdial : n.dial s.1 target with
    | error error =>
      rw [hdial] at h
      cases error <;> cases h
    | ok result =>
      rw [hdial] at h
      cases h
      rfl

theorem sent_connect (n : Network σ) (s : σ × List (List UInt8)) (settings : ClientSettings) :
    Sent ClientRequest.Proper s.2 (connect n.recording s settings).2.2 := by
  -- Nothing is sent before the connection stands and has been greeted; then the volume is mounted.
  unfold connect
  split
  · exact .refl _ _
  next hfault =>
    split
    · exact .refl _ _
    next line arrived s' hdial =>
      rw [← record_of_dial hdial]
      split
      · exact .refl _ _
      next rest _ =>
        have hmount := (keptBy_sent n).exchange _
          (ClientRequest.proper_mount (isVolumeName_of_fault? hfault))
          ⟨{ settings := settings, connection := some ⟨line, rest⟩ }, s'⟩
        dsimp only
        split
        next hexchange =>
          rw [hexchange] at hmount
          exact hmount
        next hexchange =>
          rw [hexchange] at hmount
          split
          · exact hmount
          · exact hmount

def converse (n : Network σ) (network : σ) (settings : ClientSettings) (calls : List ClientCall) :
    σ :=
  match connect n network settings with
  | (.error _, network) => network
  | (.ok client, network) => (ClientCall.runAll n ⟨client, network⟩ calls).network

theorem sent_converse (n : Network σ) (s : σ × List (List UInt8)) (settings : ClientSettings)
    (calls : List ClientCall) :
    Sent ClientRequest.Proper s.2 (converse n.recording s settings calls).2 := by
  have hconnect := sent_connect n s settings
  unfold converse
  split
  next heq =>
    rw [heq] at hconnect
    exact hconnect
  next client s' heq =>
    rw [heq] at hconnect
    exact hconnect.trans (ClientCall.keeps_runAll (keptBy_sent n) ⟨client, s'⟩ calls)

end Client

/-- A line tells a command exactly when the command is legible, with and without its end, and every
command that was read from a line is told by its own. Proper requests are delivered, and nothing
but these is sent by any call on a client, or by connecting and any row of calls after it, whatever
the network answers. -/
theorem requests_read_back :
    (∀ c : Command, (Command.parse c.toLine = .ok c ↔ c.Legible) ∧
      (Command.parse (c.toLine ++ Reply.lineEnd) = .ok c ↔ c.Legible)) ∧
    (∀ (line : String) (c : Command), Command.parse line = .ok c →
      Command.parse c.toLine = .ok c) ∧
    (∀ r : ClientRequest, r.Proper → r.Delivers) ∧
    (∀ (σ : Type) (n : Network σ) (o : Online (σ × List (List UInt8))) (call : ClientCall),
      Sent ClientRequest.Delivers o.network.2 (call.run n.recording o).network.2) ∧
    ∀ (σ : Type) (n : Network σ) (s : σ × List (List UInt8)) (settings : ClientSettings)
      (calls : List ClientCall),
      Sent ClientRequest.Delivers s.2 (Client.converse n.recording s settings calls).2 := by
  refine ⟨fun c => ⟨Command.parse_toLine_iff_legible, ?_⟩, fun line c h => ?_,
    fun r h => h.delivers, fun σ n o call => ?_, fun σ n s settings calls => ?_⟩
  · rw [Command.parse_append_lineEnd]
    exact Command.parse_toLine_iff_legible
  · exact Command.parse_toLine (Command.legible_of_parse h)
  · exact (ClientCall.sent_run n o call).mono fun r h => h.delivers
  · exact (Client.sent_converse n s settings calls).mono fun r h => h.delivers

theorem requests_read_back_spacedPath :
    ClientRequest.Proper ⟨.append 2 "/a b", [0x0d, 0x0a]⟩ ∧
      ClientRequest.Delivers ⟨.append 2 "/a b", [0x0d, 0x0a]⟩ := by
  have hpath : VolumePath.normalize "//a b/" = .ok "/a b" := by decide
  have hproper : ClientRequest.Proper ⟨.append 2 "/a b", [0x0d, 0x0a]⟩ :=
    ClientRequest.proper_of_normalize hpath rfl nofun nofun rfl
  exact ⟨hproper, requests_read_back.2.2.1 _ hproper⟩

end VolumeStore

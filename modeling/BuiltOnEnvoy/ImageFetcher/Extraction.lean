import BuiltOnEnvoy.Foundations.Bytes

/-!
# Extraction of a plugin binary from an image

The layers of an image are searched newest first for a shared object, which is
written to a temporary file and then renamed. The archive of a layer is read
through a limit: where it ends between two entries, the rest of the layer is
not seen, and the search goes on with the layers before.

An entry here is a header block with its data; an extended header is one too.
-/

namespace BuiltOnEnvoy.ImageFetcher

open Foundations List

/-- An entry of an archive, with the part of its data that can be read; reading on fails. -/
structure Entry where
  name : String
  isRegular : Bool
  perm : ℕ
  size : ℕ
  content : Bytes
  fault : String := "unexpected EOF"
  length_le : content.length ≤ size

/-- The entries of an archive, and the error after the last one if it does not end there. -/
structure Archive where
  entries : List Entry
  ending : Option String

structure Layer where
  mediaType : Except String String
  /-- `Compressed`, and then `gzip.NewReader`. -/
  compressed : Except String (Except String Archive)

/-- The error of each call on the disk, if it fails; `write` is for the copy. -/
structure Faults where
  mkdirAll : Option String := none
  createTemp : Option String := none
  write : Option String := none
  chmod : Option String := none
  sync : Option String := none
  rename : Option String := none

structure File where
  content : Bytes
  perm : ℕ

/-- The destination and the temporary file next to it, which has a name of its own. -/
structure Disk where
  destination : Option File
  temporary : Option File := none

inductive Error
  | pluginBinaryNotFound
  | failed (message : String)

def maxPluginSize : ℕ := 512 * 1024 * 1024

/-- `filepath.Ext(name) == ".so"`. -/
def Entry.isShared (e : Entry) : Bool := ".so".toList.isSuffixOf e.name.toList

def Entry.whole (e : Entry) : Bool := e.content.length = e.size

/-- The bytes of the header and of the data, filled up to whole blocks. -/
def Entry.bytes (e : Entry) : ℕ := 512 + (e.size + 511) / 512 * 512

def Entry.cut (e : Entry) (n : ℕ) : Entry where
  name := e.name
  isRegular := e.isRegular
  perm := e.perm
  size := e.size
  content := e.content.take n
  length_le := (length_take_le' n e.content).trans e.length_le

/-- `io.LimitReader`: nothing is seen from the limit on, and an entry across it is cut off. -/
def Archive.limit (ending : Option String) : ℕ → List Entry → Archive
  | n, [] => ⟨[], if n = 0 then none else ending⟩
  | n, e :: rest =>
    if n = 0 then ⟨[], none⟩
    else if e.bytes ≤ n then
      let limited := limit ending (n - e.bytes) rest
      ⟨e :: limited.entries, limited.ending⟩
    else ⟨[e.cut (n - 512)], none⟩

/-- The loop over the entries, up to the first shared object that may be extracted. -/
def findPluginBinary (ending : Option String) : List Entry → Except Error Entry
  | [] =>
    match ending with
    | none => .error .pluginBinaryNotFound
    | some err => .error (.failed ("failed to read tar entry: " ++ err))
  | e :: rest =>
    if ¬e.isShared then
      if e.whole then findPluginBinary ending rest
      else .error (.failed ("failed to read tar entry: " ++ e.fault))
    else if ¬e.isRegular then .error (.failed ("unexpected non-regular file: " ++ e.name))
    else if e.size > maxPluginSize then
      .error (.failed ("plugin too large or invalid size: " ++ e.size.repr))
    else .ok e

/-- From the copy to the temporary file to its renaming. -/
def fillTemporary (faults : Faults) (e : Entry) (disk : Disk) : Except Error Unit × Disk :=
  let copied := { disk with temporary := some ⟨e.content, 0o600⟩ }
  let perm := if e.perm = 0 then 0o755 else e.perm
  let changed := { copied with temporary := some ⟨e.content, perm⟩ }
  if ¬e.whole then (.error (.failed ("failed to copy plugin to disk: " ++ e.fault)), copied)
  else
    match faults.write, faults.chmod, faults.sync, faults.rename with
    | some err, _, _, _ => (.error (.failed ("failed to copy plugin to disk: " ++ err)), copied)
    | none, some err, _, _ => (.error (.failed err), copied)
    | none, none, some err, _ => (.error (.failed err), changed)
    | none, none, none, some err => (.error (.failed err), changed)
    | none, none, none, none => (.ok (), ⟨changed.temporary, none⟩)

/-- The temporary file is removed in every case. -/
def writePlugin (faults : Faults) (e : Entry) (disk : Disk) : Except Error Unit × Disk :=
  match faults.mkdirAll, faults.createTemp with
  | some err, _ => (.error (.failed ("failed to create plugin directory: " ++ err)), disk)
  | none, some err => (.error (.failed err), disk)
  | none, none =>
    let filled := fillTemporary faults e { disk with temporary := some ⟨[], 0o600⟩ }
    (filled.1, { filled.2 with temporary := none })

def extractPluginBinary (faults : Faults) (opened : Except String Archive) (disk : Disk) :
    Except Error Unit × Disk :=
  match opened with
  | .error err => (.error (.failed ("failed to parse layer as tar.gz: " ++ err)), disk)
  | .ok archive =>
    let limited := Archive.limit archive.ending maxPluginSize archive.entries
    match findPluginBinary limited.ending limited.entries with
    | .error err => (.error err, disk)
    | .ok e => writePlugin faults e disk

def extractLayerBinary (faults : Faults) (layer : Layer) (disk : Disk) :
    Except Error Unit × Disk :=
  match layer.compressed with
  | .error err => (.error (.failed ("failed to get layer content: " ++ err)), disk)
  | .ok opened => extractPluginBinary faults opened disk

/-- The loop over the layers, the newest one first. -/
def extractNewest (faults : Faults) (expectedMediaType : String) (disk : Disk) :
    List Layer → Except Error Unit × Disk
  | [] => (.error .pluginBinaryNotFound, disk)
  | layer :: older =>
    match layer.mediaType with
    | .error err => (.error (.failed ("failed to get media type: " ++ err)), disk)
    | .ok mt =>
      if mt ≠ expectedMediaType then extractNewest faults expectedMediaType disk older
      else
        match extractLayerBinary faults layer disk with
        | (.error .pluginBinaryNotFound, disk) => extractNewest faults expectedMediaType disk older
        | outcome => outcome

def extractImageLayer (faults : Faults) (layers : Except String (List Layer))
    (expectedMediaType : String) (disk : Disk) : Except Error Unit × Disk :=
  match layers with
  | .error err => (.error (.failed ("failed to fetch layers: " ++ err)), disk)
  | .ok layers =>
    if layers = [] then
      (.error (.failed "number of layers must be greater than zero"), disk)
    else extractNewest faults expectedMediaType disk layers.reverse

namespace Layer

def entries (layer : Layer) : List Entry :=
  match layer.compressed with
  | .ok (.ok archive) => archive.entries
  | _ => []

/-- The first shared object of a layer of the expected type. -/
def binary (expectedMediaType : String) (layer : Layer) : Option Entry :=
  match layer.mediaType with
  | .ok mt => if mt = expectedMediaType then layer.entries.find? Entry.isShared else none
  | .error _ => none

end Layer

/-- Entries before the first shared object fill this many bytes. -/
def FilledBefore (n : ℕ) (entries : List Entry) : Prop :=
  ∃ front rest, entries = front ++ rest ∧ (∀ e ∈ front, e.isShared = false) ∧
    (∃ e ∈ rest, e.isShared = true) ∧ (front.map Entry.bytes).sum = n

/-- The last layer of the expected type that contains a shared object, and the first one in it. -/
def newest (expectedMediaType : String) (layers : List Layer) : Option (Layer × Entry) :=
  layers.reverse.findSome? fun layer => (layer.binary expectedMediaType).map (layer, ·)

def imageLayers : Except String (List Layer) → List Layer
  | .ok layers => layers
  | .error _ => []

/-- What an extraction is for. -/
structure Extracts (expectedMediaType : String) (layers : List Layer) (before : Disk)
    (outcome : Except Error Unit × Disk) : Prop where
  newest : outcome.1 = .ok () → ∃ layer e, newest expectedMediaType layers = some (layer, e) ∧
    outcome.2.destination.map File.content = some e.content
  atomic : outcome.1 ≠ .ok () → outcome.2.destination = before.destination

theorem Entry.dvd_bytes (e : Entry) : 512 ∣ e.bytes :=
  Nat.dvd_add (dvd_refl 512) (Nat.dvd_mul_left 512 _)

theorem whole_cut {e : Entry} {n : ℕ} (hn : 512 ∣ n) (hpos : n ≠ 0) (hlong : ¬e.bytes ≤ n) :
    (e.cut (n - 512)).whole = false := by
  obtain ⟨k, rfl⟩ := hn
  simp only [Entry.bytes] at hlong
  simp only [Entry.whole, Entry.cut, length_take, decide_eq_false_iff_not]
  omega

theorem findPluginBinary_shared {ending : Option String} {a : Entry} (rest : List Entry)
    (h : a.isShared = true) : findPluginBinary ending (a :: rest) = .ok a ∨
      ∃ message, findPluginBinary ending (a :: rest) = .error (.failed message) := by
  rw [findPluginBinary, if_neg (by simp [h])]
  split_ifs <;> simp

theorem findPluginBinary_skip {ending : Option String} {a : Entry} (rest : List Entry)
    (h : a.isShared = false) : findPluginBinary ending (a :: rest) =
      if a.whole then findPluginBinary ending rest
      else .error (.failed ("failed to read tar entry: " ++ a.fault)) := by
  rw [findPluginBinary, if_pos (by simp [h])]

/-- Through the limit, the first shared object is found whole or not at all, unless entries
before it end at the limit. -/
theorem findPluginBinary_limit (ending : Option String) (entries : List Entry) :
    ∀ n, 512 ∣ n → ∀ limited, Archive.limit ending n entries = limited →
      (∀ e, findPluginBinary limited.ending limited.entries = .ok e → e.whole = true →
        entries.find? Entry.isShared = some e) ∧
      (findPluginBinary limited.ending limited.entries = .error .pluginBinaryNotFound →
        entries.find? Entry.isShared = none ∨ FilledBefore n entries) := by
  induction entries with
  | nil =>
    rintro n - _ rfl
    refine ⟨fun e he => ?_, fun _ => .inl rfl⟩
    simp only [Archive.limit, findPluginBinary] at he
    split at he <;> cases he
  | cons a rest ih =>
    rintro n hn _ rfl
    rw [Archive.limit]
    split_ifs with hzero hfits
    · refine ⟨nofun, fun _ => ?_⟩
      cases hfind : (a :: rest).find? Entry.isShared with
      | none => exact .inl rfl
      | some e => exact .inr ⟨[], a :: rest, rfl, by simp,
          ⟨e, mem_of_find?_eq_some hfind, find?_some hfind⟩, hzero.symm⟩
    · obtain ⟨hok, hnone⟩ := ih (n - a.bytes) (Nat.dvd_sub hn a.dvd_bytes) _ rfl
      cases hshared : a.isShared with
      | true =>
        rw [find?_cons_of_pos hshared]
        rcases findPluginBinary_shared _ hshared with h | ⟨message, h⟩ <;> rw [h]
        · exact ⟨fun e he _ => congrArg some (Except.ok.inj he), nofun⟩
        · exact ⟨nofun, nofun⟩
      | false =>
        rw [find?_cons_of_neg (by simp [hshared]), findPluginBinary_skip _ hshared]
        split_ifs with hwhole
        · refine ⟨hok, fun h => (hnone h).imp id ?_⟩
          rintro ⟨front, back, rfl, hfront, hback, hsum⟩
          refine ⟨a :: front, back, rfl, forall_mem_cons.mpr ⟨hshared, hfront⟩, hback, ?_⟩
          rw [map_cons, sum_cons, hsum]
          omega
        · exact ⟨nofun, nofun⟩
    · have hcut := whole_cut hn hzero hfits
      cases hshared : (a.cut (n - 512)).isShared with
      | true =>
        rcases findPluginBinary_shared _ hshared with h | ⟨message, h⟩ <;> rw [h]
        · refine ⟨fun e he hwhole => ?_, nofun⟩
          cases he
          exact absurd hwhole (by simp [hcut])
        · exact ⟨nofun, nofun⟩
      | false =>
        rw [findPluginBinary_skip _ hshared, if_neg (by simp [hcut])]
        exact ⟨nofun, nofun⟩

/-- A plugin that is written was read whole; the temporary file takes every failure. -/
theorem writePlugin_spec (faults : Faults) (e : Entry) (disk : Disk) :
    (∃ perm, e.whole = true ∧
      writePlugin faults e disk = (.ok (), ⟨some ⟨e.content, perm⟩, none⟩)) ∨
    ∃ message after, writePlugin faults e disk = (.error (.failed message), after) ∧
      after.destination = disk.destination := by
  unfold writePlugin fillTemporary
  by_cases hwhole : e.whole = true
  · rcases faults with ⟨_ | _, _ | _, _ | _, _ | _, _ | _, _ | _⟩ <;> simp [hwhole]
  · rcases faults with ⟨_ | _, _ | _, _, _, _, _⟩ <;> simp [hwhole]

/-- A layer that does not end the search has no shared object or one behind the limit. -/
theorem extractLayerBinary_spec (faults : Faults) (layer : Layer) (disk : Disk) :
    (∃ e perm, layer.entries.find? Entry.isShared = some e ∧
      extractLayerBinary faults layer disk = (.ok (), ⟨some ⟨e.content, perm⟩, none⟩)) ∨
    (∃ message after, extractLayerBinary faults layer disk = (.error (.failed message), after) ∧
      after.destination = disk.destination) ∨
    ((layer.entries.find? Entry.isShared = none ∨ FilledBefore maxPluginSize layer.entries) ∧
      extractLayerBinary faults layer disk = (.error .pluginBinaryNotFound, disk)) := by
  rw [extractLayerBinary, Layer.entries]
  rcases hopened : layer.compressed with err | ⟨err⟩ | ⟨archive⟩
  · exact .inr (.inl ⟨_, disk, rfl, rfl⟩)
  · exact .inr (.inl ⟨_, disk, rfl, rfl⟩)
  · obtain ⟨hok, hnone⟩ := findPluginBinary_limit archive.ending archive.entries maxPluginSize
      (by decide) _ rfl
    simp only [extractPluginBinary]
    rcases hfind : findPluginBinary _ _ with (_ | message) | e
    · exact .inr (.inr ⟨hnone hfind, rfl⟩)
    · exact .inr (.inl ⟨message, disk, rfl, rfl⟩)
    · rcases writePlugin_spec faults e disk with ⟨perm, hwhole, hwrite⟩ | hfailed
      · exact .inl ⟨e, perm, hok e hfind hwhole, hwrite⟩
      · exact .inr (.inl hfailed)

/-- How a search that takes the layers in this order can end. Those before the one that is
extracted have no shared object or one behind the limit. -/
def SearchEnds (expectedMediaType : String) (layers : List Layer) (before : Disk)
    (outcome : Except Error Unit × Disk) : Prop :=
  (outcome.1 = .ok () ∧ ∃ newer layer older e, layers = newer ++ layer :: older ∧
    layer.binary expectedMediaType = some e ∧
    outcome.2.destination.map File.content = some e.content ∧
    ∀ l ∈ newer, l.binary expectedMediaType = none ∨ FilledBefore maxPluginSize l.entries) ∨
  (outcome.1 ≠ .ok () ∧ outcome.2.destination = before.destination)

theorem SearchEnds.skip {expectedMediaType : String} {layers : List Layer} {disk : Disk}
    {outcome : Except Error Unit × Disk} {layer : Layer}
    (hlayer : layer.binary expectedMediaType = none ∨ FilledBefore maxPluginSize layer.entries)
    (h : SearchEnds expectedMediaType layers disk outcome) :
    SearchEnds expectedMediaType (layer :: layers) disk outcome := by
  rcases h with ⟨hok, newer, found, older, e, rfl, he, hdisk, hnewer⟩ | hfailed
  · exact .inl ⟨hok, layer :: newer, found, older, e, rfl, he, hdisk,
      forall_mem_cons.mpr ⟨hlayer, hnewer⟩⟩
  · exact .inr hfailed

theorem extractNewest_spec (faults : Faults) (expectedMediaType : String) (disk : Disk)
    (layers : List Layer) :
    SearchEnds expectedMediaType layers disk
      (extractNewest faults expectedMediaType disk layers) := by
  induction layers with
  | nil => exact .inr ⟨nofun, rfl⟩
  | cons layer older ih =>
    rw [extractNewest]
    cases hmt : layer.mediaType with
    | error err => exact .inr ⟨nofun, rfl⟩
    | ok mt =>
      by_cases hexpected : mt = expectedMediaType
      · have hbinary : layer.binary expectedMediaType = layer.entries.find? Entry.isShared := by
          simp [Layer.binary, hmt, hexpected]
        rcases extractLayerBinary_spec faults layer disk with
          ⟨e, perm, hfind, hrun⟩ | ⟨message, after, hrun, hdisk⟩ | ⟨hnone, hrun⟩
        · simp only [hexpected, hrun, ne_eq, not_true, if_false]
          exact .inl ⟨rfl, [], layer, older, e, rfl, hbinary.trans hfind, rfl, by simp⟩
        · simp only [hexpected, hrun, ne_eq, not_true, if_false]
          exact .inr ⟨nofun, hdisk⟩
        · simp only [hexpected, hrun, ne_eq, not_true, if_false]
          exact ih.skip (hbinary ▸ hnone)
      · simp only [ne_eq, hexpected, not_false_eq_true, if_true]
        exact ih.skip (.inl (by simp [Layer.binary, hmt, hexpected]))

theorem extractImageLayer_spec (faults : Faults) (expectedMediaType : String) (disk : Disk)
    (image : Except String (List Layer)) :
    SearchEnds expectedMediaType (imageLayers image).reverse disk
      (extractImageLayer faults image expectedMediaType disk) := by
  cases image with
  | error err => exact .inr ⟨nofun, rfl⟩
  | ok layers =>
    rw [extractImageLayer]
    split_ifs
    · exact .inr ⟨nofun, rfl⟩
    · exact extractNewest_spec faults expectedMediaType disk layers.reverse

def plugin (byte : UInt8) : Entry where
  name := "plugin.so"
  isRegular := true
  perm := 0o755
  size := 1
  content := [byte]
  length_le := le_rfl

/-- With its header, an entry of this size fills the limit. -/
def filler (content : Bytes) (h : content.length = maxPluginSize - 512) : Entry where
  name := "data"
  isRegular := true
  perm := 0o644
  size := maxPluginSize - 512
  content := content
  length_le := h.le

def tarLayer (entries : List Entry) : Layer := ⟨.ok "tar", .ok (.ok ⟨entries, none⟩)⟩

/-- An image whose older layer has a plugin. -/
def imageWith (newer : List Entry) : List Layer := [tarLayer [plugin 1], tarLayer newer]

def extractFrom (layers : List Layer) : Except Error Unit × Disk :=
  extractImageLayer {} (.ok layers) "tar" ⟨none, none⟩

theorem not_filledBefore_cons {e : Entry} {rest : List Entry} (h : e.isShared = true) :
    ¬FilledBefore maxPluginSize (e :: rest) := by
  rintro ⟨front, back, hsplit, hfront, -, hsum⟩
  cases front with
  | nil => simp [maxPluginSize] at hsum
  | cons a front =>
    cases hsplit
    simp [hfront e mem_cons_self] at h

end BuiltOnEnvoy.ImageFetcher

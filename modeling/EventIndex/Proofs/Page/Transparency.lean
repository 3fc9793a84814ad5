import EventIndex.Proofs.Page.Disk

/-! # Transparency — nobody can tell that pages are cached

Pages are handed out, taken back, written and read in any order. What a page gives back when it is
read is what was last written to it, and it cannot be read before anything was written: this is read
off the calls and their answers alone (`lastWritten`), without a word about the cache.

`uncached` is the same file without room for any page in its cache. A call is answered alike with
and without (`answer_uncached`), and leaves files behind that differ in nothing but the cache, so two
runs stay side by side whatever is asked of them (`transcript_eq`).

So there are two inductions over the calls. One has the invariant `Faithful`, which ties the pages to
the events; the other one has both files side by side.

Main results:

* `Faithful.run`: after any calls each page holds what was last written to it.
* `transcript_eq`: with and without a cache all answers are the same.
* `cache_transparent`: both for a file that was just made.
-/

namespace EventIndex

open Binary

/-- What one may ask of a page file. -/
inductive PageCall
  | allocate
  | release (id : PageId)
  | write (id : PageId) (payload : List UInt8)
  | read (id : PageId)

/-- What a page file answers. -/
inductive PageAnswer
  | page (id : PageId)
  | done
  | payload (bytes : List UInt8)

/-- A call and what came of it. -/
abbrev PageEvent := PageCall × Except StorageError PageAnswer

namespace PageCall

/-- What comes of a call. -/
def answer : PageCall → PageFile → Except StorageError PageAnswer
  | allocate, f => (Act.outcome PageFile.allocate f).map .page
  | release id, f => (Act.outcome (PageFile.release id) f).map fun _ => .done
  | write id payload, f => (Act.outcome (PageFile.write id payload) f).map fun _ => .done
  | read id, f => (Act.outcome (PageFile.read id) f).map .payload

/-- The file after a call, whatever came of it. -/
def next : PageCall → PageFile → PageFile
  | allocate, f => Act.after PageFile.allocate f
  | release id, f => Act.after (PageFile.release id) f
  | write id payload, f => Act.after (PageFile.write id payload) f
  | read id, f => Act.after (PageFile.read id) f

end PageCall

namespace PageEvent

/-- What an event leaves on a page: the payload of a write that succeeded. -/
def writtenTo (id : PageId) : PageEvent → Option (List UInt8)
  | (.write id' payload, .ok _) => if id' = id then some payload else none
  | _ => none

end PageEvent

/-- The payload of the last write to a page that succeeded. -/
def lastWritten (id : PageId) (events : List PageEvent) : Option (List UInt8) :=
  (events.filterMap (PageEvent.writtenTo id)).getLast?

/-- The last event has the say, if it writes to the page. -/
theorem lastWritten_concat (id : PageId) (events : List PageEvent) (event : PageEvent) :
    lastWritten id (events ++ [event]) = (event.writtenTo id).or (lastWritten id events) := by
  cases h : event.writtenTo id <;> simp [lastWritten, List.filterMap_append, h]

namespace PageFile

variable {f g : PageFile} {id : PageId} {payload : List UInt8}

/-- The file after some calls. -/
def run : PageFile → List PageCall → PageFile
  | f, [] => f
  | f, call :: calls => (call.next f).run calls

/-- Some calls with what came of each. -/
def transcript : PageFile → List PageCall → List PageEvent
  | _, [] => []
  | f, call :: calls => (call, call.answer f) :: (call.next f).transcript calls

/-- The same file without room for any page in its cache. -/
def uncached (f : PageFile) : PageFile :=
  { f with cacheLimit := 0, cache := .empty, hits := 0, misses := 0 }

/-! ## Single operations -/

/-- A free page is handed out, or else the next one at the end. -/
theorem allocate_run (f : PageFile) :
    allocate f = .ok (f.free.headD f.pageCount)
      { f with
        free := f.free.tail
        pageCount := if f.free = [] then f.pageCount + 1 else f.pageCount } := by
  rcases f with ⟨_, _, _, _, _, _, _ | ⟨id, free⟩, _, _, _⟩ <;> rfl

/-- A page that is taken back leaves the cache and is free. -/
theorem release_run (id : PageId) (f : PageFile) :
    release id f = .ok () (if id = noPage then f else
      { f with cache := f.cache.erase id, free := id :: f.free }) := by
  unfold release
  split <;> rfl

/-- A page that is not cached is read from the bytes of the file, and remembered. -/
theorem read_miss (hmiss : f.cache.find? id = none) :
    read id f = match f.load id with
      | .error e => .error e { f with misses := f.misses + 1 }
      | .ok payload => .ok payload ({ f with misses := f.misses + 1 }.remember id payload) := by
  simp only [read, hmiss]
  rfl

/-- A read is answered from the bytes of the file, wherever the answer is taken from. -/
theorem outcome_read (hf : f.Sound) (id : PageId) : Act.outcome (read id) f = f.load id := by
  cases hfind : f.cache.find? id with
  | some cached =>
    rw [hf.coherent id cached hfind]
    simp only [Act.outcome, read, hfind]
  | none =>
    rw [Act.outcome, read_miss hfind]
    cases f.load id <;> rfl

/-- A read leaves everything but the cache and the counters of its hits as it is. -/
theorem uncached_after_read (f : PageFile) (id : PageId) :
    (Act.after (read id) f).uncached = f.uncached := by
  cases hfind : f.cache.find? id with
  | some cached =>
    simp only [Act.after, read, hfind]
    rfl
  | none =>
    rw [Act.after, read_miss hfind]
    cases f.load id <;> rfl

/-- The file after a write that succeeds. -/
def overwritten (f : PageFile) (id : PageId) (payload : List UInt8) : PageFile :=
  { f with
    blocks := f.blocks.insert id (pack (pageBytes f.pageSize payload))
    length := max f.length ((id + 1) * f.pageSize)
    writes := f.writes + 1 }.remember id payload

/-- Whether a write succeeds depends on nothing but the size of a page: it fails and changes nothing,
or there is room for what it writes. -/
theorem write_cases (f : PageFile) (id : PageId) (payload : List UInt8) :
    (∃ e, ∀ g, g.payloadCapacity = f.payloadCapacity → write id payload g = .error e g) ∨
      id ≠ noPage ∧ payload.length ≤ f.payloadCapacity ∧
        ∀ g, g.payloadCapacity = f.payloadCapacity →
          write id payload g = .ok () (g.overwritten id payload) := by
  by_cases hid : id = noPage
  · exact .inl ⟨_, fun g _ => by rw [write, if_pos hid]⟩
  · by_cases hsize : f.payloadCapacity < payload.length
    · exact .inl ⟨_, fun g hg => by rw [write, if_neg hid, hg, if_pos hsize]⟩
    · refine .inr ⟨hid, Nat.le_of_not_lt hsize, fun g hg => ?_⟩
      rw [write, if_neg hid, hg, if_neg hsize]
      rfl

/-- The checksum of an empty payload is not zero. -/
theorem checksum_zeros : Crc32.checksum (List.replicate 4 0) ≠ 0 := by decide +kernel

/-- A page that nothing was written to cannot be read: it lies beyond the end of the file, or its
zeros do not carry the checksum of the empty payload that they seem to hold. -/
theorem load_unwritten (hf : f.Sound) (h : f.blocks[id]? = none) : ∃ e, f.load id = .error e := by
  have hzeros : f.blockBytes id = List.replicate f.pageSize 0 := by simp only [blockBytes, h]
  have hsize : 256 ≤ f.pageSize := hf.minSize
  obtain ⟨more, hmore⟩ : ∃ more, f.pageSize = 8 + more := ⟨f.pageSize - 8, by omega⟩
  -- a block of zeros declares an empty payload, whose checksum is not zero
  have hstored : numberAt (f.blockBytes id) 0 4 = 0 := by
    rw [hzeros, hmore, List.replicate_add]
    rfl
  have hdeclared : numberAt (f.blockBytes id) 4 4 = 0 := by
    rw [hzeros, hmore, List.replicate_add]
    rfl
  have hchecked : ((f.blockBytes id).drop 4).take (4 + 0) = List.replicate 4 0 := by
    rw [hzeros, hmore, List.replicate_add]
    rfl
  unfold load
  split
  · exact ⟨_, rfl⟩
  · have hsum : UInt32.ofNat 0 ≠ Crc32.checksum (List.replicate 4 0) := checksum_zeros.symm
    simp only [hstored, hdeclared, hchecked]
    rw [if_neg (Nat.not_lt_zero _), if_pos hsum]
    exact ⟨_, rfl⟩

/-- The same bytes, whatever is free, cached or counted. -/
structure SameBytes (f g : PageFile) : Prop where
  pageSize_eq : g.pageSize = f.pageSize
  blocks_eq : g.blocks = f.blocks
  length_eq : g.length = f.length

/-- What a page holds is told by the bytes alone. -/
theorem SameBytes.load (h : f.SameBytes g) (id : PageId) : g.load id = f.load id := by
  unfold PageFile.load blockBytes payloadCapacity
  rw [h.pageSize_eq, h.blocks_eq, h.length_eq]

theorem sameBytes_allocate (f : PageFile) : f.SameBytes (Act.after allocate f) := by
  rw [Act.after_ok (allocate_run f)]
  exact ⟨rfl, rfl, rfl⟩

theorem sameBytes_release (f : PageFile) (id : PageId) :
    f.SameBytes (Act.after (release id) f) := by
  rw [Act.after_ok (release_run id f)]
  split <;> exact ⟨rfl, rfl, rfl⟩

theorem sameBytes_read (f : PageFile) (id : PageId) : f.SameBytes (Act.after (read id) f) := by
  have hsame := uncached_after_read f id
  have hsize := congrArg pageSize hsame
  have hblocks := congrArg blocks hsame
  have hlength := congrArg length hsame
  exact ⟨hsize, hblocks, hlength⟩

/-- Every call keeps the file sound. -/
theorem sound_next (hf : f.Sound) (call : PageCall) : (call.next f).Sound := by
  cases call with
  | allocate =>
    show (Act.after allocate f).Sound
    rw [Act.after_ok (allocate_run f)]
    refine ⟨hf.minSize, hf.maxSize, ?_, hf.coherent⟩
    show 0 < if f.free = [] then f.pageCount + 1 else f.pageCount
    have hpos := hf.pageCount_pos
    split <;> omega
  | release id =>
    show (Act.after (release id) f).Sound
    by_cases hid : id = noPage
    · rwa [Act.after_ok (release_run id f), if_pos hid]
    · obtain ⟨f', hrun, hf', -⟩ := release_spec hf hid
      rwa [Act.after_ok hrun]
  | write id payload => exact (after_write hf id payload).1
  | read id => exact (after_read hf id).1

theorem Sound.run (hf : f.Sound) (calls : List PageCall) : (f.run calls).Sound := by
  induction calls generalizing f with
  | nil => exact hf
  | cons call calls ih => exact ih (sound_next hf call)

/-! ## What the pages hold -/

/-- A file after some events: the cache agrees with the bytes, each page holds what was last written
to it, and a page that nothing was written to has no bytes of its own. -/
structure Faithful (f : PageFile) (events : List PageEvent) : Prop where
  sound : f.Sound
  written : ∀ id payload, lastWritten id events = some payload → f.load id = .ok payload
  unwritten : ∀ id, id ≠ noPage → lastWritten id events = none → f.blocks[id]? = none

variable {events : List PageEvent}

/-- An event that writes nothing leaves what is known of the pages as it is. -/
theorem Faithful.of_sameBytes (hf : f.Faithful events) {event : PageEvent}
    (hevent : ∀ id, event.writtenTo id = none) (hg : g.Sound) (hsame : f.SameBytes g) :
    g.Faithful (events ++ [event]) := by
  have hlast : ∀ id, lastWritten id (events ++ [event]) = lastWritten id events := fun id => by
    rw [lastWritten_concat, hevent id, Option.none_or]
  refine ⟨hg, fun id payload h => ?_, fun id hid h => ?_⟩
  · rw [hsame.load]
    exact hf.written id payload (hlast id ▸ h)
  · rw [hsame.blocks_eq]
    exact hf.unwritten id hid (hlast id ▸ h)

/-- A write leaves its payload on its page, and on the other pages what they held. -/
theorem Faithful.write (hf : f.Faithful events) (id : PageId) (payload : List UInt8) :
    ((PageCall.write id payload).next f).Faithful
      (events ++ [(.write id payload, (PageCall.write id payload).answer f)]) := by
  obtain ⟨e, hfails⟩ | ⟨hid, hsize, hruns⟩ := write_cases f id payload
  · have hrun := hfails f rfl
    have hnext : (PageCall.write id payload).next f = f := Act.after_error hrun
    have hanswer : (PageCall.write id payload).answer f = .error e := by
      rw [PageCall.answer, Act.outcome_error hrun]
      rfl
    rw [hnext, hanswer]
    exact hf.of_sameBytes (fun _ => rfl) hf.sound ⟨rfl, rfl, rfl⟩
  · have hrun := hruns f rfl
    have hnext : (PageCall.write id payload).next f = f.overwritten id payload := Act.after_ok hrun
    have hanswer : (PageCall.write id payload).answer f = .ok .done := by
      rw [PageCall.answer, Act.outcome_ok hrun]
      rfl
    obtain ⟨f', hrun', hf', hself, -⟩ := write_spec hf.sound hid hsize
    rw [hrun] at hrun'
    cases hrun'
    have hblocks : (f.overwritten id payload).blocks =
        f.blocks.insert id (pack (pageBytes f.pageSize payload)) := rfl
    -- from here on the page has the new payload, and no other page is touched
    have hlast : ∀ id', lastWritten id' (events ++ [(.write id payload, .ok .done)]) =
        if id = id' then some payload else lastWritten id' events := fun id' => by
      rw [lastWritten_concat]
      show ((if id = id' then some payload else none).or _ : Option (List UInt8)) = _
      split <;> rfl
    rw [hnext, hanswer]
    refine ⟨hf', fun id' other h => ?_, fun id' hid' h => ?_⟩ <;> rw [hlast] at h
    · by_cases heq : id = id'
      · rw [if_pos heq, Option.some.injEq] at h
        rw [← heq, ← h]
        exact disk_pages_eq_some.mp hself
      · rw [if_neg heq] at h
        exact load_of_insert (Ne.symm heq) hblocks rfl (Nat.le_max_left _ _) (hf.written id' other h)
    · by_cases heq : id = id'
      · rw [if_pos heq] at h
        cases h
      · rw [if_neg heq] at h
        rw [hblocks, Std.HashMap.getElem?_insert, if_neg (by simpa using heq)]
        exact hf.unwritten id' hid' h

/-- Every call leaves the pages with what was last written to them. -/
theorem Faithful.next (hf : f.Faithful events) (call : PageCall) :
    (call.next f).Faithful (events ++ [(call, call.answer f)]) := by
  have hsound := sound_next hf.sound call
  cases call with
  | allocate => exact hf.of_sameBytes (fun _ => rfl) hsound (sameBytes_allocate f)
  | release id => exact hf.of_sameBytes (fun _ => rfl) hsound (sameBytes_release f id)
  | write id payload => exact hf.write id payload
  | read id => exact hf.of_sameBytes (fun _ => rfl) hsound (sameBytes_read f id)

/-- Any calls leave the pages with what was last written to them. -/
theorem Faithful.run (hf : f.Faithful events) (calls : List PageCall) :
    (f.run calls).Faithful (events ++ f.transcript calls) := by
  induction calls generalizing f events with
  | nil => rwa [PageFile.run, transcript, List.append_nil]
  | cons call calls ih =>
    have hrest := ih (hf.next call)
    rwa [List.append_assoc] at hrest

/-- On a new file nothing was written to any page. -/
theorem faithful_create {pageSize cachePages : Nat} (h : create pageSize cachePages = .ok f) :
    f.Faithful [] where
  sound := (create_spec h).1
  written id payload hlast := by cases hlast
  unwritten id hid _ := by
    unfold create at h
    split at h
    · cases h
    · cases h
      have hne : (0 == id) = false := beq_eq_false_iff_ne.mpr (Ne.symm hid)
      rw [Std.HashMap.getElem?_insert, hne]
      exact Std.HashMap.getElem?_emptyWithCapacity

/-! ## With and without a cache -/

theorem Sound.uncached (hf : f.Sound) : f.uncached.Sound :=
  ⟨hf.minSize, hf.maxSize, hf.pageCount_pos, fun id payload hfind => by cases hfind⟩

/-- A call is answered alike with and without a cache, and leaves the same file but for it. -/
theorem answer_uncached (hf : f.Sound) (call : PageCall) :
    call.answer f = call.answer f.uncached ∧
      (call.next f).uncached = (call.next f.uncached).uncached := by
  cases call with
  | allocate =>
    show (Act.outcome allocate f).map _ = (Act.outcome allocate f.uncached).map _ ∧
      (Act.after allocate f).uncached = (Act.after allocate f.uncached).uncached
    rw [Act.outcome_ok (allocate_run f), Act.outcome_ok (allocate_run f.uncached),
      Act.after_ok (allocate_run f), Act.after_ok (allocate_run f.uncached)]
    exact ⟨rfl, rfl⟩
  | release id =>
    show (Act.outcome (release id) f).map _ = (Act.outcome (release id) f.uncached).map _ ∧
      (Act.after (release id) f).uncached = (Act.after (release id) f.uncached).uncached
    rw [Act.outcome_ok (release_run id f), Act.outcome_ok (release_run id f.uncached),
      Act.after_ok (release_run id f), Act.after_ok (release_run id f.uncached)]
    split <;> exact ⟨rfl, rfl⟩
  | write id payload =>
    show (Act.outcome (write id payload) f).map _ = (Act.outcome (write id payload) f.uncached).map _ ∧
      (Act.after (write id payload) f).uncached = (Act.after (write id payload) f.uncached).uncached
    obtain ⟨e, hfails⟩ | ⟨-, -, hruns⟩ := write_cases f id payload
    · rw [Act.outcome_error (hfails f rfl), Act.outcome_error (hfails f.uncached rfl),
        Act.after_error (hfails f rfl), Act.after_error (hfails f.uncached rfl)]
      exact ⟨rfl, rfl⟩
    · rw [Act.outcome_ok (hruns f rfl), Act.outcome_ok (hruns f.uncached rfl),
        Act.after_ok (hruns f rfl), Act.after_ok (hruns f.uncached rfl)]
      exact ⟨rfl, rfl⟩
  | read id =>
    -- only here the cache is asked, and what it holds is what the bytes say
    refine ⟨?_, (uncached_after_read f id).trans (uncached_after_read f.uncached id).symm⟩
    show (Act.outcome (read id) f).map _ = (Act.outcome (read id) f.uncached).map _
    rw [outcome_read hf, outcome_read hf.uncached]
    rfl

theorem load_uncached (f : PageFile) (id : PageId) : f.uncached.load id = f.load id := rfl

/-- Two files that differ in nothing but the cache cannot be told apart. -/
theorem transcript_eq (hf : f.Sound) (hg : g.Sound) (h : f.uncached = g.uncached)
    (calls : List PageCall) :
    f.transcript calls = g.transcript calls ∧ (f.run calls).uncached = (g.run calls).uncached := by
  induction calls generalizing f g with
  | nil => exact ⟨rfl, h⟩
  | cons call calls ih =>
    obtain ⟨hanswer, hnext⟩ := answer_uncached hf call
    obtain ⟨hanswer', hnext'⟩ := answer_uncached hg call
    have hsame : call.answer f = call.answer g := by rw [hanswer, hanswer', h]
    have hrest : (call.next f).uncached = (call.next g).uncached := by rw [hnext, hnext', h]
    obtain ⟨htranscript, hrun⟩ := ih (sound_next hf call) (sound_next hg call) hrest
    exact ⟨by rw [transcript, transcript, hsame, htranscript], hrun⟩

/-- The file holds nothing in its cache and has no room there. -/
structure Cacheless (f : PageFile) : Prop where
  limit_eq : f.cacheLimit = 0
  cache_eq : f.cache = .empty

/-- Without room nothing is remembered. -/
theorem Cacheless.remember (hf : f.Cacheless) (id : PageId) (payload : List UInt8) :
    (f.remember id payload).Cacheless := by
  refine ⟨hf.limit_eq, ?_⟩
  rw [PageFile.remember, hf.limit_eq]
  rfl

/-- Without room nothing is ever cached. -/
theorem Cacheless.next (hf : f.Cacheless) (call : PageCall) : (call.next f).Cacheless := by
  cases call with
  | allocate =>
    show (Act.after allocate f).Cacheless
    rw [Act.after_ok (allocate_run f)]
    exact ⟨hf.limit_eq, hf.cache_eq⟩
  | release id =>
    show (Act.after (release id) f).Cacheless
    rw [Act.after_ok (release_run id f)]
    split
    · exact hf
    · refine ⟨hf.limit_eq, ?_⟩
      show f.cache.erase id = .empty
      rw [hf.cache_eq]
      rfl
  | write id payload =>
    show (Act.after (write id payload) f).Cacheless
    obtain ⟨e, hfails⟩ | ⟨-, -, hruns⟩ := write_cases f id payload
    · rwa [Act.after_error (hfails f rfl)]
    · rw [Act.after_ok (hruns f rfl)]
      let g : PageFile :=
        { f with
          blocks := f.blocks.insert id (pack (pageBytes f.pageSize payload))
          length := max f.length ((id + 1) * f.pageSize)
          writes := f.writes + 1 }
      have hg : g.Cacheless := ⟨hf.limit_eq, hf.cache_eq⟩
      exact hg.remember id payload
  | read id =>
    have hmiss : f.cache.find? id = none := by
      rw [hf.cache_eq]
      rfl
    show (Act.after (read id) f).Cacheless
    -- nothing is found in the cache, and what was read is not remembered
    let g : PageFile := { f with misses := f.misses + 1 }
    have hg : g.Cacheless := ⟨hf.limit_eq, hf.cache_eq⟩
    rw [Act.after, read_miss hmiss]
    cases f.load id with
    | ok payload => exact hg.remember id payload
    | error e => exact hg

/-- Without room nothing is ever cached, whatever is asked. -/
theorem Cacheless.run (hf : f.Cacheless) (calls : List PageCall) : (f.run calls).Cacheless := by
  induction calls generalizing f with
  | nil => exact hf
  | cons call calls ih => exact ih (hf.next call)

/-! ## Transparency -/

/-- After any calls a page gives back what was last written to it, or an error if nothing was, and
neither this nor any answer before it is another one than without a cache.

The cache may have room for any number of pages, and for none. Its file is compared with `uncached`,
which differs from it in nothing else. -/
theorem cache_transparent {pageSize cachePages : Nat} (h : create pageSize cachePages = .ok f)
    (calls : List PageCall) {id : PageId} (hid : id ≠ noPage) :
    (∀ payload, lastWritten id (f.transcript calls) = some payload →
      Act.outcome (read id) (f.run calls) = .ok payload) ∧
    (lastWritten id (f.transcript calls) = none →
      ∃ e, Act.outcome (read id) (f.run calls) = .error e) ∧
    f.transcript calls = f.uncached.transcript calls ∧
    Act.outcome (read id) (f.run calls) = Act.outcome (read id) (f.uncached.run calls) ∧
    (f.uncached.run calls).cache = .empty := by
  have hstart := faithful_create h
  have hend := hstart.run calls
  rw [List.nil_append] at hend
  have huncached := hstart.sound.uncached
  obtain ⟨htranscript, hrun⟩ := transcript_eq hstart.sound huncached rfl calls
  -- a read is answered from the bytes, and these hold what the events have written
  have hread := outcome_read hend.sound id
  refine ⟨fun payload hlast => ?_, fun hlast => ?_, htranscript, ?_,
    (Cacheless.run ⟨rfl, rfl⟩ calls).cache_eq⟩
  · rw [hread]
    exact hend.written id payload hlast
  · rw [hread]
    exact load_unwritten hend.sound (hend.unwritten id hid hlast)
  · rw [hread, outcome_read (huncached.run calls), ← load_uncached, hrun, load_uncached]

/-- With room for one page only, a page gives back what was written to it after another one was
written and after it was given back and handed out again, and a page that was only handed out cannot
be read. -/
theorem cache_transparent_small : ∃ f, create 256 1 = .ok f ∧
    ∃ calls, calls = [.allocate, .allocate, .allocate, .write 1 [7, 8], .write 2 [9], .read 1,
        .read 2, .release 1, .allocate] ∧
      Act.outcome (read 1) (f.run calls) = .ok [7, 8] ∧
      ∃ e, Act.outcome (read 3) (f.run calls) = .error e := by
  obtain ⟨f, hf⟩ : ∃ f, create 256 1 = .ok f := ⟨_, rfl⟩
  refine ⟨f, hf, _, rfl, (cache_transparent hf _ (by decide)).1 [7, 8] ?_,
    (cache_transparent hf _ (by decide)).2.1 ?_⟩
  · cases hf
    rfl
  · cases hf
    rfl

end PageFile

end EventIndex

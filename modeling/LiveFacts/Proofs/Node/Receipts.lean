import LiveFacts.Proofs.Node.Maintenance
import LiveFacts.Proofs.Query.Turns

/-!
# Facts that arrive in any order

A node takes in whatever it receives under the hash of its content, also before it has what the fact
names. A watch then has what its query found at first and what has been told about each fact as it
came. That is all there is if every fact came after those that it names, or if the query turns at
every move; otherwise a fact that closes a gap can make a result possible of which nothing is told.
-/

namespace LiveFacts

namespace Store

/-- One of the records is new when its turn comes, and tells then that the result appears. -/
def IsToldBy (query : Query) (start : Reference) : List Record → Store → Reference → Prop
  | [], _, _ => False
  | record :: rest, store, result =>
    (store.contains record.reference = false ∧
      (store.save record).Tells query start record.reference .added result) ∨
    IsToldBy query start rest (store.save record) result

variable {store : Store} {query : Query} {start result : Reference} {records : List Record}

theorem links_saveAll {a b : Reference} {role : String} (h : store.links a role b) :
    (records.foldl save store).links a role b := by
  induction records generalizing store with
  | nil => exact h
  | cons record rest ih => exact ih (links_save h)

theorem leads_of_isToldBy (hplain : query.isPlain = true) (hsound : store.IsSound)
    (hkeyed : ∀ record ∈ records, record.IsKeyed)
    (h : IsToldBy query start records store result) :
    (records.foldl save store).links.Leads query start result := by
  induction records generalizing store with
  | nil => exact h.elim
  | cons record rest ih =>
    obtain ⟨hrecord, hrest⟩ := List.forall_mem_cons.1 hkeyed
    have hsound' := hsound.save hrecord
    have hkept : ∀ {a b : Reference} {role : String}, (store.save record).links a role b →
        (rest.foldl save (store.save record)).links a role b := links_saveAll
    rcases h with ⟨-, htells⟩ | htold
    · rcases Links.arrives_or_recalls_of_reports (htells.reports hsound') with
        ⟨-, harrives⟩ | ⟨_, _, hrecalls⟩
      · exact Links.leads_mono hkept hplain harrives.leads
      · exact absurd hrecalls (Links.not_recalls_of_isPlain hplain)
    · exact ih hsound' hrest htold

/-- If what each record brings is told when it comes, all that the records bring is told. -/
theorem leads_or_isToldBy {motive : Store → List Record → Prop}
    (hkept : ∀ {store record rest}, motive store (record :: rest) →
      motive (store.save record) rest)
    (hstep : ∀ {store record rest}, motive store (record :: rest) →
      store.contains record.reference = false →
      (store.save record).links.Leads query start result →
      store.links.Leads query start result ∨
        (store.save record).Tells query start record.reference .added result)
    (hmotive : motive store records)
    (h : (records.foldl save store).links.Leads query start result) :
    store.links.Leads query start result ∨ IsToldBy query start records store result := by
  induction records generalizing store with
  | nil => exact Or.inl h
  | cons record rest ih =>
    rcases ih (hkept hmotive) h with hleads | htold
    · by_cases hnew : store.contains record.reference = true
      · rw [save_of_contains hnew] at hleads
        exact Or.inl hleads
      · have hfresh : store.contains record.reference = false := by simpa using hnew
        exact (hstep hmotive hfresh hleads).imp_right fun htells => Or.inl ⟨hfresh, htells⟩
    · exact Or.inr (Or.inr htold)

/-- So it is where each record comes after those that it names. -/
theorem leads_or_isToldBy_of_areGrounded (hsound : store.IsSound) (hclosed : store.IsClosed)
    (hstart : store.contains start = true)
    (hgrounded : Record.AreGrounded (fun fact => store.contains fact = true) records)
    (h : (records.foldl save store).links.Leads query start result) :
    store.links.Leads query start result ∨ IsToldBy query start records store result := by
  refine leads_or_isToldBy (motive := fun store records => store.IsSound ∧ store.IsClosed ∧
    store.contains start = true ∧ Record.AreGrounded (fun fact => store.contains fact = true)
      records) ?_ ?_ ⟨hsound, hclosed, hstart, hgrounded⟩ h
  · rintro store record rest ⟨hsound, hclosed, hstart, hkeyed, hnamed, hrest⟩
    have hgrown := records_grow_save store record
    refine ⟨hsound.save hkeyed, hclosed.save hnamed, contains_of_grown hgrown hstart,
      Record.areGrounded_mono hrest fun fact hfact => ?_⟩
    rcases hfact with hold | rfl
    · exact contains_of_grown hgrown hold
    · exact contains_save_self store record
  · rintro store record rest ⟨hsound, hclosed, hstart, hkeyed, hnamed, -⟩ hnew hleads
    have hadmits : store.Admits record := ⟨hsound, hclosed, hkeyed, hnew, hnamed⟩
    exact hadmits.leads_or_tells hstart hleads

/-- For a query that alternates it is so in any order. -/
theorem leads_or_isToldBy_of_alternates (hplain : query.isPlain = true)
    (halternates : query.Alternates) (hsound : store.IsSound)
    (hstart : query.descends = true → store.contains start = true)
    (hkeyed : ∀ record ∈ records, record.IsKeyed)
    (h : (records.foldl save store).links.Leads query start result) :
    store.links.Leads query start result ∨ IsToldBy query start records store result := by
  refine leads_or_isToldBy (motive := fun store records => store.IsSound ∧
    (query.descends = true → store.contains start = true) ∧
      ∀ record ∈ records, record.IsKeyed) ?_ ?_ ⟨hsound, hstart, hkeyed⟩ h
  · rintro store record rest ⟨hsound, hstart, hkeyed⟩
    obtain ⟨hrecord, hrest⟩ := List.forall_mem_cons.1 hkeyed
    exact ⟨hsound.save hrecord, fun hdescends =>
      contains_of_grown (records_grow_save store record) (hstart hdescends), hrest⟩
  · rintro store record rest ⟨hsound, hstart, hkeyed⟩ hnew hleads
    exact leads_or_tells_of_alternates hsound hplain halternates hstart
      (hkeyed record List.mem_cons_self) hnew hleads

/-- What is found at first or told about a record goes on being true. -/
theorem leads_of_finds_or_isToldBy (hplain : query.isPlain = true) (hsound : store.IsSound)
    (hkeyed : ∀ record ∈ records, record.IsKeyed)
    (h : store.Finds query start result ∨ IsToldBy query start records store result) :
    (records.foldl save store).links.Leads query start result := by
  rcases h with hfinds | htold
  · have hkept : ∀ {a b : Reference} {role : String}, store.links a role b →
        (records.foldl save store).links a role b := links_saveAll
    exact Links.leads_mono hkept hplain ((finds_iff hsound).1 hfinds).2
  · exact leads_of_isToldBy hplain hsound hkeyed htold

/-- Nothing is left to find in the end, if the facts are stored, and come, after those that they
name, or if the query alternates. -/
theorem finds_or_isToldBy (hplain : query.isPlain = true) (hsound : store.IsSound)
    (hkeyed : ∀ record ∈ records, record.IsKeyed) (hstart : store.contains start = true)
    (hway : store.IsClosed ∧
        Record.AreGrounded (fun fact => store.contains fact = true) records ∨ query.Alternates)
    (h : (records.foldl save store).links.Leads query start result) :
    store.Finds query start result ∨ IsToldBy query start records store result := by
  rw [finds_iff hsound]
  rcases hway with ⟨hclosed, hgrounded⟩ | halternates
  · have hfails := not_fails_of_isClosed hsound hclosed query hstart
    exact (leads_or_isToldBy_of_areGrounded hsound hclosed hstart hgrounded h).imp_left
      fun hleads => ⟨hfails, hleads⟩
  · have hfails := not_fails_of_alternates hplain halternates fun _ => hstart
    exact (leads_or_isToldBy_of_alternates hplain halternates hsound (fun _ => hstart) hkeyed
      h).imp_left fun hleads => ⟨hfails, hleads⟩

end Store

namespace Node

inductive TakesIn (record : Record) (source : Source) : Node → Node → Except Error Bool → Prop
  | forged {node : Node} : ¬ record.IsAuthentic → TakesIn record source node node
      (.error (.invalidFact (.hashMismatch record.reference source)))
  | authentic {node changed : Node} {count : Except Error Nat} : record.IsAuthentic →
      SavesAll [record] node changed count →
      TakesIn record source node changed (count.map (0 < ·))

theorem takesIn_takeIn (record : Record) (source : Source) (node : Node) :
    TakesIn record source node (node.takeIn record source).1 (node.takeIn record source).2 := by
  rw [takeIn]
  split
  · next hauthentic => exact TakesIn.authentic hauthentic (savesAll_saveAll [record] node)
  · next hforged => exact TakesIn.forged hforged

/-- A ready node without a network that can be reached from outside. -/
structure IsLocal (node : Node) : Prop extends node.IsReady where
  network? : node.network? = none
  alive : node.alive = true

variable {node other changed : Node} {record : Record} {source : Source}

theorem IsLocal.of_sameSetup (hlocal : node.IsLocal) (hsame : SameSetup other node)
    (hsound : other.facts.IsSound) : other.IsLocal where
  toIsReady := hlocal.toIsReady.of_sameSetup hsame hsound
  network? := hsame.network?.trans hlocal.network?
  alive := hsame.alive.trans hlocal.alive

theorem IsLocal.of_sameContent (hlocal : node.IsLocal) (hsame : SameContent other node) :
    other.IsLocal :=
  hlocal.of_sameSetup hsame.toSameSetup (hsame.facts ▸ hlocal.sound)

theorem IsLocal.of_savesAll {records : List Record} {count : Except Error Nat}
    (hlocal : node.IsLocal) (h : SavesAll records node changed count)
    (hkeyed : ∀ record ∈ records, record.IsKeyed) : changed.IsLocal := by
  obtain ⟨hready, hsame, -⟩ := h.isReady hlocal.toIsReady hkeyed
  exact hlocal.of_sameSetup hsame hready.sound

theorem isLocal_of_ofConfig? {config : Config} (h : Node.ofConfig? config = some node) :
    node.IsLocal := by
  have hsettled := isSettled_of_ofConfig? h
  rw [eq_of_ofConfig? h] at hsettled ⊢
  exact ⟨hsettled.isReady, rfl, rfl⟩

end Node

namespace World

open Node

variable {name : String} {world next final : World} {record : Record} {records : List Record}
  {source : Source}

inductive Receives (name : String) (record : Record) (source : Source) : World → World → Prop
  | gone {world : World} : (world.node name).alive = false →
      Receives name record source world world
  | taken {world : World} {changed : Node} {result : Except Error Bool} :
      (world.node name).alive = true → TakesIn record source (world.node name) changed result →
      Receives name record source world
        (if result.toOption = some true ∧ source.isHere then
          (world.setNode name changed).relay name [record]
        else world.setNode name changed)

theorem receives_receive (name : String) (record : Record) (source : Source) (world : World) :
    Receives name record source world (world.receive name record source).1 := by
  have htaken := takesIn_takeIn record source (world.node name)
  cases halive : (world.node name).alive with
  | false =>
    have hgone : Receives name record source world world := Receives.gone halive
    simpa [receive, reach, halive] using hgone
  | true =>
    have hreceived := Receives.taken halive htaken
    rw [receive, reach, if_pos halive]
    match hresult : (world.node name).takeIn record source with
    | (changed, .error error) => simpa [hresult, Except.toOption] using hreceived
    | (changed, .ok false) => simpa [hresult, Except.toOption] using hreceived
    | (changed, .ok true) =>
      simpa [hresult, Except.toOption] using hreceived

inductive ReceivesAll (name : String) : World → List Record → World → Prop
  | nil (world : World) : ReceivesAll name world [] world
  | cons {world next final : World} {record : Record} {rest : List Record} {source : Source} :
      Receives name record source world next → ReceivesAll name next rest final →
      ReceivesAll name world (record :: rest) final

inductive Reaches (name : String) (world : World) : World → Prop
  | start : Reaches name world world
  | call {middle next : World} {call : Call} : Reaches name world middle →
      Performs name middle call next → Reaches name world next
  | receipt {middle next : World} {record : Record} {source : Source} :
      Reaches name world middle → record.IsKeyed → Receives name record source middle next →
      Reaches name world next

theorem Makes.isLocal {document : Json} {made : World × Except Error Reference}
    (h : Makes name document world made) (hkeyed : document.isKeyed = true)
    (hlocal : (world.node name).IsLocal) : (made.1.node name).IsLocal := by
  have keyed : ∀ {records : List Record} {root : Reference},
      Document.dehydrateFact [] document = .ok (records, root) →
      ∀ record ∈ records, record.IsKeyed :=
    fun hrecords =>
      Record.isKeyed_of_areGrounded (Document.areGrounded_dehydrateFact hkeyed hrecords)
  cases h with
  | invalid hfault => exact hlocal
  | refused hrecords hsaves =>
    rw [node_setNode]
    exact hlocal.of_savesAll hsaves (keyed hrecords)
  | @made changed records root last count hrecords hlast hsaves =>
    have hchanged := hlocal.of_savesAll hsaves (keyed hrecords)
    have hset : ((world.setNode name changed).node name).IsLocal := by rwa [node_setNode]
    split
    · exact hset.of_sameContent (sameContent_relay hset.network? records)
    · exact hset

theorem Performs.isLocal {call : Call} (h : Performs name world call next)
    (hlocal : (world.node name).IsLocal) : (next.node name).IsLocal := by
  cases h with
  | fact hkeyed hmakes => exact hmakes.isLocal hkeyed hlocal
  | watch start query listener =>
    have hspares := spares_watch hlocal.network? start query listener
    have hready := hspares.isReady hlocal.toIsReady.register
    exact ⟨hready, hspares.network?.trans hlocal.network?, hspares.alive.trans hlocal.alive⟩
  | stop id =>
    have hid : ∀ watch, (Watch.stop watch).id = watch.id := fun _ => rfl
    have hspares := spares_modifyWatch hid (world.node name) id
    rw [node_modifyNode]
    exact hlocal.of_sameSetup hspares.toSameSetup (hspares.facts ▸ hlocal.sound)

/-- A local node stores what it receives, if it is authentic; what else it does leaves facts and
watches alone. -/
theorem Receives.spec (h : Receives name record source world next)
    (hlocal : (world.node name).IsLocal) (hkeyed : record.IsKeyed) :
    ¬ record.IsAuthentic ∧ SameContent (next.node name) (world.node name) ∨
      ∃ changed new, Saves record (world.node name) changed new ∧
        SameContent (next.node name) changed := by
  have relayed : ∀ {changed : Node} {relays : Prop} [Decidable relays], changed.IsLocal →
      SameContent ((if relays then (world.setNode name changed).relay name [record]
        else world.setNode name changed).node name) changed := by
    intro changed relays _ hchanged
    have hset : ((world.setNode name changed).node name).IsLocal := by rwa [node_setNode]
    split
    · simpa using sameContent_relay hset.network? [record]
    · rw [node_setNode]
      exact SameContent.refl changed
  cases h with
  | gone hgone =>
    rw [hlocal.alive] at hgone
    cases hgone
  | taken _ htaken =>
    cases htaken with
    | forged hforged => exact Or.inl ⟨hforged, relayed hlocal⟩
    | authentic _ hsaves =>
      have hchanged := hlocal.of_savesAll hsaves (by simpa using hkeyed)
      cases hsaves with
      | refused hsave =>
        rw [hlocal.saveRecord_eq] at hsave
        split at hsave <;> simp at hsave
      | cons hsave hnil =>
        cases hnil
        exact Or.inr ⟨_, _, hsave, relayed hchanged⟩

theorem Receives.isLocal (h : Receives name record source world next)
    (hlocal : (world.node name).IsLocal) (hkeyed : record.IsKeyed) :
    (next.node name).IsLocal := by
  rcases h.spec hlocal hkeyed with ⟨-, hsame⟩ | ⟨changed, new, hsave, hsame⟩
  · exact hlocal.of_sameContent hsame
  · obtain ⟨hready, hsetup, -⟩ := hsave.isReady hlocal.toIsReady hkeyed
    exact (hlocal.of_sameSetup hsetup hready.sound).of_sameContent hsame

theorem Reaches.isLocal (h : Reaches name world final) (hlocal : (world.node name).IsLocal) :
    (final.node name).IsLocal := by
  induction h with
  | start => exact hlocal
  | call _ hcall ih => exact hcall.isLocal ih
  | receipt _ hkeyed hreceives ih => exact hreceives.isLocal ih hkeyed

/-- A watch has taken up what is told about the records that were received. -/
theorem Receives.exists_taken (h : Receives name record source world next)
    (hlocal : (world.node name).IsLocal) (hkeyed : record.IsKeyed)
    (hauthentic : record.IsAuthentic) :
    (next.node name).facts = (world.node name).facts.save record ∧
      ∀ {id : Nat} {watch : Watch}, (world.node name).watch? id = some watch →
        ∃ taken, (next.node name).watch? id = some (watch.takeAll taken) ∧
          ((world.node name).facts.contains record.reference = true ∧ taken = [] ∨
            (world.node name).facts.contains record.reference = false ∧
              watch.Hears ((world.node name).facts.save record) record.reference taken) := by
  rcases h.spec hlocal hkeyed with ⟨hforged, -⟩ | ⟨changed, new, hsave, hsame⟩
  · exact absurd hauthentic hforged
  · refine ⟨hsame.facts.trans (hsave.isReady hlocal.toIsReady hkeyed).2.2, ?_⟩
    intro id watch hwatch
    rw [Node.watch?, hsame.watches]
    cases new with
    | false =>
      obtain ⟨rfl, hknown⟩ := hsave.eq_of_known hlocal.toIsReady
      exact ⟨[], hwatch, Or.inl ⟨hknown, rfl⟩⟩
    | true =>
      obtain ⟨hnew, -, hfacts, hhears⟩ := hsave.hears hlocal.toIsReady hkeyed
      obtain ⟨taken, htaken, hhear⟩ := hhears hwatch
      rw [hfacts] at hhear
      exact ⟨taken, htaken, Or.inr ⟨hnew, hhear⟩⟩

variable {start : Reference} {query : Query} {listener : Listener} {id : Nat} {watch : Watch}

theorem ReceivesAll.exists_watch (h : ReceivesAll name world records final)
    (hlocal : (world.node name).IsLocal) (hkeyed : ∀ record ∈ records, record.IsKeyed)
    (hauthentic : ∀ record ∈ records, record.IsAuthentic) (hplain : query.isPlain = true)
    (hpanics : listener.NeverPanics) (hwatch : (world.node name).watch? id = some watch)
    (hfollows : watch.Follows start query listener) (hnodup : watch.results.Nodup) :
    (final.node name).IsLocal ∧
      (final.node name).facts = records.foldl Store.save (world.node name).facts ∧
      ∃ watch', (final.node name).watch? id = some watch' ∧
        watch'.Follows start query listener ∧ watch'.results.Nodup ∧
        (watch'.isStopped = false → watch.isStopped = false ∧
          ∀ result, result ∈ watch'.results ↔ result ∈ watch.results ∨
            Store.IsToldBy query start records (world.node name).facts result) := by
  induction h generalizing watch with
  | nil world =>
    refine ⟨hlocal, rfl, watch, hwatch, hfollows, hnodup, fun hactive => ⟨hactive, ?_⟩⟩
    simp [Store.IsToldBy]
  | @cons world next final record rest source hreceives _ ih =>
    obtain ⟨hrecord, hkeyedRest⟩ := List.forall_mem_cons.1 hkeyed
    obtain ⟨hgenuine, hauthenticRest⟩ := List.forall_mem_cons.1 hauthentic
    obtain ⟨hfacts, htakes⟩ := hreceives.exists_taken hlocal hrecord hgenuine
    obtain ⟨taken, htaken, htold⟩ := htakes hwatch
    obtain ⟨hfinal, hall, watch', hwatch', hfollows', hnodup', hresults⟩ :=
      ih (hreceives.isLocal hlocal hrecord) hkeyedRest hauthenticRest htaken
        (hfollows.takeAll taken) (Watch.nodup_results_takeAll hnodup taken)
    rw [hfacts] at hall hresults
    refine ⟨hfinal, hall, watch', hwatch', hfollows', hnodup', fun hactive => ?_⟩
    obtain ⟨hstill, hmem⟩ := hresults hactive
    refine ⟨Watch.isStopped_of_takeAll hstill, fun result => ?_⟩
    rw [hmem, Store.IsToldBy, ← or_assoc]
    refine or_congr_left ?_
    obtain ⟨rfl, rfl, rfl⟩ := hfollows
    rcases htold with ⟨hknown, rfl⟩ | ⟨hnew, hhear⟩
    · simp [hknown]
    · rw [hhear.mem_results (hlocal.sound.save hrecord) hplain hpanics hstill hnodup]
      simp [hnew]

/-- Of a query without conditions, from a start that is stored, a watch has in the end what the
query found at first and what was told about the records that were received, in their order. All of
it is true. It is all there is if the facts were stored, and arrived, after those that they name, or
if the query alternates. -/
theorem received_results_iff {config : Config} {node : Node}
    (hnode : Node.ofConfig? config = some node) {name : String} {world : World}
    (hworld : world.node name = node) {opened : World} (hopened : Reaches name world opened)
    (hplain : query.isPlain = true) (hpanics : listener.NeverPanics)
    (hstart : (opened.node name).facts.contains start = true) {records : List Record}
    (hkeyed : ∀ record ∈ records, record.IsKeyed)
    (hauthentic : ∀ record ∈ records, record.IsAuthentic)
    (hclosed : (records.foldl Store.save (opened.node name).facts).IsClosed) :
    ∃ id, (opened.watch name start query listener).2 = .handle id ∧
      ∀ {final : World},
        ReceivesAll name (opened.watch name start query listener).1 records final →
        ∃ watch found, (final.node name).watch? id = some watch ∧
          (final.node name).facts = records.foldl Store.save (opened.node name).facts ∧
          (final.node name).facts.evaluate start query = .ok found ∧
          (watch.isStopped = false →
            (∀ result, result ∈ watch.results ↔
              (opened.node name).facts.Finds query start result ∨
                Store.IsToldBy query start records (opened.node name).facts result) ∧
            (∀ result ∈ watch.results, result ∈ terminals found) ∧
            ((opened.node name).facts.IsClosed ∧
                Record.AreGrounded (fun fact => (opened.node name).facts.contains fact = true)
                  records ∨
              query.Alternates → watch.results.Perm (terminals found))) := by
  have hlocal : (opened.node name).IsLocal :=
    hopened.isLocal (hworld ▸ isLocal_of_ofConfig? hnode)
  obtain ⟨houtcome, first, hfirst, hfollows, -, ⟨hnodup, hseeded⟩, -⟩ :=
    exists_seeded hlocal.toIsReady hlocal.network? start query hpanics
  refine ⟨_, houtcome, fun {final} hreceived => ?_⟩
  have hspares := spares_watch hlocal.network? start query listener
  have hwatched : ((opened.watch name start query listener).1.node name).IsLocal :=
    (Performs.watch opened start query listener).isLocal hlocal
  have hfacts : ((opened.watch name start query listener).1.node name).facts =
      (opened.node name).facts := hspares.facts
  obtain ⟨hfinal, hall, watch, hwatch, -, hnodup', hresults⟩ :=
    hreceived.exists_watch hwatched hkeyed hauthentic hplain hpanics hfirst hfollows hnodup
  rw [hfacts] at hall hresults
  rw [← hall] at hclosed
  have hstored : (final.node name).facts.contains start = true := by
    rw [hall]
    exact Store.contains_of_grown (Store.records_grow_saveAll _ records) hstart
  obtain ⟨found, hfound, hmem⟩ := Store.exists_evaluate hfinal.sound hclosed hstored query
  refine ⟨watch, found, hwatch, hall, hfound, fun hactive => ?_⟩
  have hhas : ∀ result, result ∈ watch.results ↔
      (opened.node name).facts.Finds query start result ∨
        Store.IsToldBy query start records (opened.node name).facts result := by
    intro result
    rw [(hresults hactive).2, hseeded]
  have htrue : ∀ result ∈ watch.results, result ∈ terminals found := by
    intro result hresult
    rw [hmem, hall]
    exact Store.leads_of_finds_or_isToldBy hplain hlocal.sound hkeyed ((hhas result).1 hresult)
  refine ⟨hhas, htrue, fun hway => ?_⟩
  refine (List.perm_ext_iff_of_nodup hnodup' (nodup_terminals found)).2 fun result =>
    ⟨htrue result, fun hresult => ?_⟩
  rw [hmem, hall] at hresult
  exact (hhas result).2 (Store.finds_or_isToldBy hplain hlocal.sound hkeyed hstart hway hresult)

/-- What a peer sends is stored, with its round, if it is authentic. -/
theorem node_receive {peer : PeerId} (halive : (world.node name).alive = true)
    (hauthentic : record.IsAuthentic) :
    (world.receive name record (.peer peer)).1.node name =
      ((world.node name).saveAll [record]).1 := by
  have hhere : (Source.peer peer).isHere = false := rfl
  rw [receive, reach, if_pos halive, takeIn, if_pos hauthentic]
  match (world.node name).saveAll [record] with
  | (changed, .error error) => simp [Except.map]
  | (changed, .ok count) =>
    cases hcount : decide (0 < count) <;> simp [Except.map, hcount, hhere]

namespace Errands

def completions : Query := [.successor "list", .successor "task"]

def expecting : World := (listed.watch "a" list.reference completions .quiet).1

def peer : PeerId := ⟨1⟩

def receiving : List Record → World → World
  | [], world => world
  | record :: rest, world => receiving rest (world.receive "a" record (.peer peer)).1

theorem receivesAll_receiving (records : List Record) (world : World) :
    ReceivesAll "a" world records (receiving records world) := by
  induction records generalizing world with
  | nil => exact ReceivesAll.nil world
  | cons record rest ih =>
    exact ReceivesAll.cons (receives_receive "a" record (.peer peer) world) (ih _)

theorem reaches_listed : Reaches "a" {} listed :=
  Reaches.start.call
    (Performs.fact isKeyed_listDocument (makes_fact "a" listDocument {}))

theorem isLocal_expecting : (expecting.node "a").IsLocal :=
  (Performs.watch listed list.reference completions .quiet).isLocal
    (reaches_listed.isLocal (isLocal_of_ofConfig? (rfl : Node.ofConfig? {} = some {})))

theorem isAuthentic_task : task.IsAuthentic := by decide +kernel

theorem isAuthentic_completion : completion.IsAuthentic := by decide +kernel

/-- The node when both records have been received, in an order. -/
theorem node_receiving {first second : Record} (hfirst : first.IsAuthentic)
    (hkeyed : first.IsKeyed) (hsecond : second.IsAuthentic) :
    (receiving [first, second] expecting).node "a" =
      ((((expecting.node "a").saveAll [first]).1).saveAll [second]).1 := by
  have hreceived := receives_receive "a" first (.peer peer) expecting
  have hnext := hreceived.isLocal isLocal_expecting hkeyed
  rw [receiving, receiving, receiving, node_receive hnext.alive hsecond,
    node_receive isLocal_expecting.alive hfirst]

/-- Of a completion that comes after its task the watch is told. -/
theorem completions_received_in_order :
    ∃ watch, ((receiving [task, completion] expecting).node "a").watch? 1 = some watch ∧
      watch.isStopped = false ∧ watch.results = [completion.reference] := by
  have hnode : Node.ofConfig? {} = some {} := rfl
  have hplain : completions.isPlain = true := by decide
  have hkeyed : ∀ record ∈ [task, completion], record.IsKeyed := by decide
  have hauthentic : ∀ record ∈ [task, completion], record.IsAuthentic := by
    simp [isAuthentic_task, isAuthentic_completion]
  have hclosed : ([task, completion].foldl Store.save (listed.node "a").facts).IsClosed := by
    rw [facts_listed]
    decide
  obtain ⟨id, houtcome, hreceived⟩ := received_results_iff hnode rfl reaches_listed hplain
    Listener.neverPanics_quiet contains_listed hkeyed hauthentic hclosed
  have hlisted := reaches_listed.isLocal (isLocal_of_ofConfig? (rfl : Node.ofConfig? {} = some {}))
  obtain ⟨houtcome', -⟩ := exists_seeded hlisted.toIsReady hlisted.network? list.reference
    completions Listener.neverPanics_quiet
  have hone : id = 1 := by
    rw [WatchOutcome.handle.inj (houtcome.symm.trans houtcome'), watches_listed, List.length_nil]
  have hreceivesAll := receivesAll_receiving [task, completion] expecting
  obtain ⟨watch, found, hwatch, hfacts, hfound, hresults⟩ := hreceived hreceivesAll
  have hactive : ((((receiving [task, completion] expecting).node "a").watch? 1).map
      Watch.isStopped) = some false := by
    rw [node_receiving isAuthentic_task (by decide) isAuthentic_completion, expecting, listed_eq]
    decide +kernel
  rw [hone] at hwatch
  rw [hwatch, Option.map_some, Option.some.injEq] at hactive
  have hgrounded : Record.AreGrounded
      (fun fact => (listed.node "a").facts.contains fact = true) [task, completion] := by
    rw [facts_listed]
    exact ⟨by decide, by decide, by decide, by decide, trivial⟩
  obtain ⟨-, -, hall⟩ := hresults hactive
  have hperm := hall (Or.inl ⟨by rw [facts_listed]; decide, hgrounded⟩)
  have hdone : (Store.evaluate ([task, completion].foldl Store.save (Store.save {} list))
      list.reference completions) =
        .ok [[list.reference, task.reference, completion.reference]] := by decide
  rw [hfacts, facts_listed] at hfound
  rw [Except.ok.inj (hfound.symm.trans hdone)] at hperm
  exact ⟨watch, hwatch, hactive, List.perm_singleton.1 hperm⟩

/-- Of a completion that comes before its task, the watch is never told: when the task comes, the
query finds the completion, and the watch stays as it was. -/
theorem completions_received_out_of_order :
    ReceivesAll "a" expecting [completion, task] (receiving [completion, task] expecting) ∧
      ((receiving [completion, task] expecting).node "a").facts.IsClosed ∧
      ((receiving [completion, task] expecting).node "a").phase 1 = .live ∧
      (((receiving [completion, task] expecting).node "a").watch? 1).map Watch.results = some [] ∧
      ((receiving [completion, task] expecting).node "a").facts.evaluate list.reference
        completions = .ok [[list.reference, task.reference, completion.reference]] := by
  refine ⟨receivesAll_receiving [completion, task] expecting, ?_⟩
  rw [node_receiving isAuthentic_completion (by decide) isAuthentic_task, expecting, listed_eq]
  exact ⟨by decide +kernel, by decide +kernel, by decide +kernel, by decide +kernel⟩

end Errands

end World

end LiveFacts

import Ousagi.ServerPoints
import Ousagi.ServerChecks

/-!
Where the values come from that a client is shown: some of the updates on the key, one after
the other, make them out of nothing, and each of these updates is one that a client has asked for.
-/

namespace Ousagi

open Library

def Item.content (item : Item) : UInt32 × Bytes := (item.flags, item.data)

def Value.content (value : Value) : UInt32 × Bytes := (value.2.1, value.2.2.1)

/-- What an update makes of the flags and the data under its key, if it takes effect. -/
def Update.rewrite (held : Option (UInt32 × Bytes)) : Update → Option (UInt32 × Bytes)
  | .store .append args => held.map fun old => (old.1, old.2 ++ args.data)
  | .store .prepend args => held.map fun old => (old.1, args.data ++ old.2)
  | .store _ args => some (args.flags, args.data)
  | .arithmetic op _ delta => held.bind fun old =>
      (numericValue old.2).map fun value => (old.1, decimal (op.apply value delta).toNat)
  | .touch _ _ => held

def rewrites (updates : List Update) : Option (UInt32 × Bytes) :=
  updates.foldl (fun held update => update.rewrite held) none

theorem Update.effect_rewrites {update : Update} {now cas : UInt64} {found : Option Item}
    {item : Item} (left : (update.effect now cas found).2 = some item) :
    found.map Item.content = some item.content ∨
      update.rewrite (found.map Item.content) = some item.content := by
  cases update with
  | store op args =>
      cases op with
      | set =>
          cases left
          exact Or.inr rfl
      | add =>
          cases found <;> cases left
          · exact Or.inr rfl
          · exact Or.inl rfl
      | replace | append | prepend =>
          cases found <;> cases left
          exact Or.inr rfl
      | cas =>
          cases token : args.cas with
          | none =>
              simp only [effect, token] at left
              exact Or.inl (congrArg _ left)
          | some expected =>
              cases found with
              | none => simp [effect, token] at left
              | some old =>
                  simp only [effect, token] at left
                  split at left <;> cases left
                  · exact Or.inl rfl
                  · exact Or.inr rfl
  | arithmetic op key delta =>
      cases found with
      | none => cases left
      | some old =>
          cases number : numericValue old.data with
          | none =>
              simp only [effect, number, Option.some.injEq] at left
              exact Or.inl (congrArg (some ∘ Item.content) left)
          | some value =>
              simp only [effect, number, Option.some.injEq] at left
              refine Or.inr ?_
              simp [rewrite, Item.content, number, ← left]
  | touch key exptime =>
      cases found <;> cases left
      exact Or.inl rfl

theorem Retrieval.effect_content {retrieval : Retrieval} {now cas : UInt64} {key : Bytes}
    {found : Option Item} {item : Item}
    (left : (retrieval.effect now cas key found).2 = some item) :
    found.map Item.content = some item.content := by
  cases retrieval with
  | get withCas => exact congrArg (Option.map Item.content) left
  | getAndTouch exptime withCas =>
      cases found <;> cases left
      rfl

theorem Retrieval.effect_value {retrieval : Retrieval} {now cas : UInt64} {key : Bytes}
    {found : Option Item} {value : Value}
    (shown : (retrieval.effect now cas key found).1 = some value) :
    value.1 = key ∧ found.map Item.content = some value.content := by
  cases retrieval <;> cases found <;> cases shown <;> exact ⟨rfl, rfl⟩

@[simp] theorem Update.command_update (update : Update) : update.command.update = some update := by
  cases update <;> rfl

def Entry.requested : Entry → Option Update
  | .called command => command.update
  | _ => none

def Entry.made : Entry → Option Update
  | .acted point => point.command.update
  | _ => none

def Entry.shown : Entry → List Value
  | .visited point | .acted point => point.response.entries
  | _ => []

theorem Fits.shows_none {command : Command} {response : Response} (fits : Fits command response)
    (changes : command.retrieval = none) : response.entries = [] := by
  cases fits with
  | found retrieves shown => simp [changes] at retrieves
  | _ => rfl

theorem Explains.shown {command : Command} {done : List Entry} {response : Response}
    (explains : Explains command done response) {value : Value}
    (among : value ∈ response.entries) : ∃ entry ∈ done, value ∈ entry.shown := by
  cases explains with
  | @retrieved _ retrieval keys now cutoff points retrieves each reads =>
      obtain ⟨point, visited, shown⟩ := List.mem_flatMap.mp among
      refine ⟨.visited point, ?_, shown⟩
      exact List.mem_cons_of_mem _ (List.mem_cons_of_mem _ (List.mem_map_of_mem visited))
  | updated updates now cutoff token =>
      exact ⟨_, List.mem_of_getLast? rfl, among⟩
  | deleted key noreply now cutoff token =>
      exact ⟨_, List.mem_of_getLast? rfl, among⟩
  | refused | cleared | scheduled => cases among

theorem map_made {α : Type} (entry : α → Entry) (silent : ∀ found, (entry found).made = none)
    (list : List α) : (list.map entry).filterMap Entry.made = [] := by
  induction list with
  | nil => rfl
  | cons head rest ih => rw [List.map_cons, List.filterMap_cons_none (silent head), ih]

theorem Explains.made {command : Command} {done : List Entry} {response : Response}
    (explains : Explains command done response) :
    (done.filterMap Entry.made).Sublist command.update.toList := by
  cases explains with
  | @retrieved _ retrieval keys now cutoff points retrieves each reads =>
      have silent := map_made Entry.visited (fun _ => rfl) points
      simp [List.filterMap_cons, Entry.made, silent]
  | updated updates now cutoff token =>
      simp [List.filterMap_cons, Entry.made, updates]
  | deleted key noreply now cutoff token =>
      simp [List.filterMap_cons, Entry.made, Command.update]
  | cleared noreply immediate keys dropped =>
      have silent := map_made Entry.dropped (fun _ => rfl) dropped
      simp [List.filterMap_cons, Entry.made, silent]
  | refused | scheduled => simp [List.filterMap_cons, Entry.made]

theorem Stage.made {command : Command} {done : List Entry} {phase : Phase}
    (stage : Stage (some (command, done)) phase) :
    (done.filterMap Entry.made).Sublist command.update.toList := by
  cases stage with
  | finished explains => exact explains.made
  | @visiting _ retrieval seen waiting now cutoff points retrieves each reads sane =>
      have silent := map_made Entry.visited (fun _ => rfl) points
      simp [List.filterMap_cons, Entry.made, silent]
  | erasing noreply immediate keys dropped =>
      have silent := map_made Entry.dropped (fun _ => rfl) dropped
      simp [List.filterMap_cons, Entry.made, silent]
  | _ => simp [List.filterMap_cons, Entry.made]

theorem call_makes {before done : List Entry} {command : Command} (later : List Entry)
    (earlier : (before.filterMap Entry.made).Sublist (before.filterMap Entry.requested))
    (once : (done.filterMap Entry.made).Sublist command.update.toList)
    (silent : later.filterMap Entry.made = []) :
    ((before ++ Entry.called command :: (done ++ later)).filterMap Entry.made).Sublist
      ((before ++ Entry.called command :: (done ++ later)).filterMap Entry.requested) := by
  have makes : (before ++ Entry.called command :: (done ++ later)).filterMap Entry.made =
      before.filterMap Entry.made ++ done.filterMap Entry.made := by
    rw [List.filterMap_append, List.filterMap_cons_none rfl, List.filterMap_append, silent,
      List.append_nil]
  have asks : (before ++ Entry.called command :: (done ++ later)).filterMap Entry.requested =
      before.filterMap Entry.requested ++ command.update.toList ++
        (done ++ later).filterMap Entry.requested := by
    rw [List.filterMap_append, List.append_assoc, List.filterMap_cons, Entry.requested]
    cases command.update <;> rfl
  rw [makes, asks]
  exact (earlier.append once).trans (List.sublist_append_left _ _)

theorem Story.made {pending : Option (Command × List Entry)} {told : List Entry}
    (story : Story pending told) :
    ∃ before, (before.filterMap Entry.made).Sublist (before.filterMap Entry.requested) ∧
      told = before ++ pending.elim [] fun working => .called working.1 :: working.2 := by
  induction story with
  | silent => exact ⟨[], List.Sublist.refl _, rfl⟩
  | called earlier command ih =>
      obtain ⟨before, made, rfl⟩ := ih
      exact ⟨before, made, by simp⟩
  | went earlier inner ih =>
      obtain ⟨before, made, rfl⟩ := ih
      exact ⟨before, made, by simp⟩
  | @replied told done command response earlier explains ih =>
      obtain ⟨before, made, rfl⟩ := ih
      refine ⟨_, call_makes [.replied response] made explains.made rfl, ?_⟩
      simp

theorem Story.makes_asked {pending : Option (Command × List Entry)} {told : List Entry}
    {phase : Phase} (story : Story pending told) (stage : Stage pending phase) :
    (told.filterMap Entry.made).Sublist (told.filterMap Entry.requested) := by
  obtain ⟨before, made, rfl⟩ := story.made
  cases pending with
  | none => simpa using made
  | some working =>
      have makes := call_makes [] made stage.made rfl
      rwa [List.append_nil] at makes

section Logs

variable {Client : Type} [DecidableEq Client]

def updates (pick : Entry → Option Update) (log : List (Option Client × Entry)) :
    List (Client × Update) :=
  log.filterMap fun entry => entry.1.bind fun client =>
    (pick entry.2).map fun update => (client, update)

omit [DecidableEq Client] in
theorem updates_append (pick : Entry → Option Update) (log more : List (Option Client × Entry)) :
    updates pick (log ++ more) = updates pick log ++ updates pick more := List.filterMap_append

theorem updates_count (pick : Entry → Option Update) (log : List (Option Client × Entry))
    (client : Client) (update : Update) :
    (updates pick log).count (client, update) =
      ((told client log).filterMap pick).count update := by
  induction log with
  | nil => rfl
  | cons entry rest ih =>
      obtain ⟨owner, entry⟩ := entry
      simp only [updates, told, List.filterMap_cons] at ih ⊢
      cases owner with
      | none => exact ih
      | some other =>
          by_cases same : other = client
          · cases picked : pick entry with
            | none => simpa [same, picked] using ih
            | some found => simp [same, picked, List.count_cons, ih]
          · cases picked : pick entry with
            | none => simpa [same, picked] using ih
            | some found => simp [same, ih]

theorem updates_subperm {fewer more : Entry → Option Update} {log : List (Option Client × Entry)}
    (each : ∀ client,
      ((told client log).filterMap fewer).Subperm ((told client log).filterMap more)) :
    (updates fewer log).Subperm (updates more log) := by
  rw [List.subperm_ext_iff]
  intro step _
  rw [updates_count, updates_count]
  exact (each step.1).count_le step.2

/-- Some of the updates of the log, all on the key, make the content out of nothing. -/
def Descends (log : List (Option Client × Entry)) (key : Bytes) (content : UInt32 × Bytes) : Prop :=
  ∃ lineage : List (Client × Update), lineage.Sublist (updates Entry.made log) ∧
    (∀ step ∈ lineage, step.2.key = key) ∧ rewrites (lineage.map Prod.snd) = some content

omit [DecidableEq Client] in
theorem Descends.later {log : List (Option Client × Entry)} {key : Bytes} {content : UInt32 × Bytes}
    (descends : Descends log key content) (more : List (Option Client × Entry)) :
    Descends (log ++ more) key content := by
  obtain ⟨lineage, among, here, made⟩ := descends
  refine ⟨lineage, among.trans ?_, here, made⟩
  rw [updates_append]
  exact List.sublist_append_left _ _

omit [DecidableEq Client] in
theorem descends_rewrite {log : List (Option Client × Entry)} {found : Option (UInt32 × Bytes)}
    {update : Update} {content : UInt32 × Bytes} (client : Client) {point : Point}
    (earlier : ∀ held, found = some held → Descends log update.key held)
    (acts : point.command = update.command) (rewritten : update.rewrite found = some content) :
    Descends (log ++ [(some client, .acted point)]) update.key content := by
  have made : updates Entry.made (log ++ [(some client, .acted point)]) =
      updates Entry.made log ++ [(client, update)] := by
    simp [updates, Entry.made, acts]
  cases found with
  | none =>
      refine ⟨[(client, update)], ?_, ?_, rewritten⟩
      · rw [made]
        exact List.sublist_append_right _ _
      · intro step among
        rw [List.mem_singleton.mp among]
  | some held =>
      obtain ⟨lineage, among, here, line⟩ := earlier held rfl
      refine ⟨lineage ++ [(client, update)], ?_, ?_, ?_⟩
      · rw [made]
        exact among.append (List.Sublist.refl _)
      · intro step member
        rcases List.mem_append.mp member with old | last
        · exact here step old
        · rw [List.mem_singleton.mp last]
      · rw [rewrites, List.map_append, List.foldl_append]
        rw [rewrites] at line
        rw [line]
        exact rewritten

end Logs

section Runs

variable {Client : Type} [DecidableEq Client]

namespace World

structure Traced (log : List (Option Client × Entry)) (world : World Client) : Prop where
  items : ∀ key item, world.store.items.lookup key = some item → Descends log key item.content
  points : ∀ entry ∈ log, ∀ value ∈ entry.2.shown, Descends log value.1 value.content

variable {world after : World Client} {log : List (Option Client × Entry)}

omit [DecidableEq Client] in
theorem Traced.visible (traced : world.Traced log) {now : UInt64} {cutoff : Option UInt64}
    {key : Bytes} {content : UInt32 × Bytes}
    (found : (visibleItem now cutoff world.store.items key).map Item.content = some content) :
    Descends log key content := by
  obtain ⟨item, seen, rfl⟩ := Option.map_eq_some_iff.mp found
  exact traced.items key item (visible_lookup seen)

omit [DecidableEq Client] in
theorem entry_shown {event : ClientEvent Client} (wellFormed : world.WellFormed)
    {entry : Option Client × Entry} (seen : event.entry world = some entry) {value : Value}
    (among : value ∈ entry.2.shown) :
    ∃ now cutoff, (visibleItem now cutoff world.store.items value.1).map Item.content =
      some value.content := by
  cases event with
  | act client =>
      obtain ⟨own, acted, rfl⟩ := Option.map_eq_some_iff.mp seen
      simp only [World.acted] at acted
      split at acted
      · rename_i retrieval now cutoff key rest values during
        cases acted
        obtain ⟨items, stats, result, _⟩ := retrieval.visit_effect now cutoff world.store key
        simp only [Entry.shown, Response.entries, Option.mem_toList, result] at among
        obtain ⟨rfl, found⟩ := Retrieval.effect_value among
        exact ⟨now, cutoff, found⟩
      · rename_i update now cutoff token during
        cases acted
        have wellFormed : update.WellFormed := wellFormed.during during
        obtain ⟨items, stats, result, _⟩ := update.perform_effect now cutoff token world.store
        have fits := update.effect_answers update.command_update wellFormed now token
          (visibleItem now cutoff world.store.items update.key)
        have none := fits.shows_none (by cases update <;> rfl)
        simp only [Entry.shown, result, none] at among
        cases among
      · rename_i key now cutoff during
        cases acted
        have none := (deleteEntry_answers key false now cutoff world.store).shows_none rfl
        simp only [Entry.shown, none] at among
        cases among
      · cases acted
        cases among
      · cases acted
        cases among
      · cases acted
  | refuse client =>
      obtain ⟨own, refused, rfl⟩ := Option.map_eq_some_iff.mp seen
      rw [World.refused] at refused
      split at refused <;> cases refused
      cases among
  | reply client =>
      obtain ⟨_, _, rfl⟩ := Option.map_eq_some_iff.mp seen
      cases among
  | evict key =>
      rw [ClientEvent.entry] at seen
      split at seen <;> cases seen
      cases among
  | cleared => cases seen
  | _ =>
      cases seen
      cases among

theorem step_traced {event : ClientEvent Client} (taken : world.step event = some after)
    (wellFormed : world.WellFormed) (traced : world.Traced log) :
    after.Traced (log ++ (event.entry world).toList) := by
  constructor
  · intro key item there
    rcases step_items taken there with before | leaving
    · exact (traced.items key item before).later _
    · cases leaving with
      | visited client retrieval now cutoff rest values during left =>
          exact (traced.visible (Retrieval.effect_content left)).later _
      | updated client update now cutoff token during here left =>
          rcases Update.effect_rewrites left with same | rewritten
          · exact (traced.visible same).later _
          · subst here
            have seen : (ClientEvent.act client).entry world = some (some client, .acted {
                command := update.command, now, cutoff, token
                response := (update.perform now cutoff token world.store).1 }) := by
              simp [ClientEvent.entry, acted, during]
            rw [seen]
            exact descends_rewrite client (fun held found => traced.visible found) rfl rewritten
  · intro entry among value shown
    rcases List.mem_append.mp among with earlier | now
    · exact (traced.points entry earlier value shown).later _
    · obtain ⟨now, cutoff, found⟩ := entry_shown wellFormed (Option.mem_toList.mp now) shown
      exact (traced.visible found).later _

end World

theorem Hears.shown {pending : Option (Command × List Entry)} {told : List Entry}
    {said : List Event} (hears : Hears pending told said) {response : Response}
    (replied : .replied response ∈ said) {value : Value} (among : value ∈ response.entries) :
    ∃ entry ∈ told, value ∈ entry.shown := by
  induction hears with
  | joined earlier => cases replied
  | refused earlier refusal ih => exact ih (by simpa using replied)
  | @answered told said command answer earlier storeless fits ih =>
      have none : answer.entries = [] := by
        apply fits.shows_none
        cases command <;> first | rfl | cases storeless
      rcases List.mem_append.mp replied with before | now
      · exact ih before
      · have same : response = answer := by
          cases quiet : command.noreply <;> simp [quiet] at now
          exact now
        rw [same, none] at among
        cases among
  | called earlier command ih =>
      obtain ⟨entry, there, shown⟩ := ih (by simpa using replied)
      exact ⟨entry, List.mem_append_left _ there, shown⟩
  | went earlier inner ih =>
      obtain ⟨entry, there, shown⟩ := ih replied
      exact ⟨entry, List.mem_append_left _ there, shown⟩
  | @replied told done said command answer earlier explains ih =>
      rcases List.mem_append.mp replied with before | now
      · obtain ⟨entry, there, shown⟩ := ih before
        exact ⟨entry, List.mem_append_left _ there, shown⟩
      · have same : response = answer := by
          cases quiet : command.noreply <;> simp [quiet] at now
          exact now
        obtain ⟨entry, there, shown⟩ := explains.shown (same ▸ among)
        obtain ⟨before, _, rfl⟩ := earlier.story.made
        refine ⟨entry, ?_, shown⟩
        simp [there]

theorem mem_of_told {client : Client} {log : List (Option Client × Entry)}
    {entry : Entry} (among : entry ∈ told client log) : (some client, entry) ∈ log := by
  obtain ⟨⟨owner, own⟩, there, picked⟩ := List.mem_filterMap.mp among
  simp only [Option.ite_none_right_eq_some, Option.some.injEq] at picked
  obtain ⟨rfl, rfl⟩ := picked
  exact there

section Numbers

variable [FromRadix10SignedChecked UInt32] [FromRadix10SignedChecked UInt64]
  [FromRadix10SignedChecked Int64]

namespace Server

theorem step_traced {event : ServerEvent Client} {server after : Server Client}
    {log : List (Option Client × Entry)} (taken : server.step event = some after)
    (wellFormed : server.world.WellFormed) (traced : server.world.Traced log) :
    after.world.Traced (log ++ (event.entry server).toList) := by
  rcases step_entry taken with ⟨unseen, _, same⟩ | ⟨inner, worked, seen⟩
  · have items : after.world.store.bare.items = server.world.store.bare.items := by rw [same]
    rw [unseen, Option.toList_none, List.append_nil]
    exact ⟨fun key item there => traced.items key item (items ▸ there), traced.points⟩
  · rw [seen]
    exact World.step_traced worked wellFormed traced

theorem run_traced {events : List (ServerEvent Client)} {server : Server Client}
    (reached : run step events new = some server) : server.world.Traced (entries events) := by
  let holds (log : List (Option Client × Entry)) (server : Server Client) : Prop :=
    server.world.WellFormed ∧ server.world.Traced log
  have keeps : ∀ {log : List (Option Client × Entry)} {event : ServerEvent Client}
      {before after : Server Client}, before.step event = some after → holds log before →
      holds (log ++ (event.entry before).toList) after := by
    rintro log event before after taken ⟨wellFormed, traced⟩
    exact ⟨step_wellFormed taken wellFormed, step_traced taken wellFormed traced⟩
  have start : holds [] .new := by
    refine ⟨World.new_wellFormed, ?_, ?_⟩
    · intro key item there
      simp [new, World.new, Store.new] at there
    · intro entry among
      cases among
  exact (run_logged keeps reached start).2

end Server

/-- In every run of the server, each update that is made is one that a client has asked for, each
request is made once at most, and a value that a session has written is what some of these updates,
all on its key and one after the other, make out of nothing. -/
theorem values_descend {events : List (ServerEvent Client)} {server : Server Client}
    (reached : run Server.step events .new = some server) :
    (updates Entry.made (Server.entries events)).Subperm
        (updates Entry.requested (Server.entries events)) ∧
      ∀ client conn, server.conn client = some conn → ∀ response,
        .replied response ∈ conn.history → ∀ value ∈ response.entries,
          ∃ lineage : List (Client × Update),
            lineage.Sublist (updates Entry.made (Server.entries events)) ∧
            (∀ step ∈ lineage, step.2.key = value.1) ∧
            rewrites (lineage.map Prod.snd) = some (value.2.1, value.2.2.1) := by
  obtain ⟨_, hearing⟩ := Server.run_hearing reached
  have traced := Server.run_traced reached
  constructor
  · apply updates_subperm
    intro client
    apply List.Sublist.subperm
    cases connected : server.conn client with
    | none =>
        obtain ⟨story, idle⟩ := (hearing client).1 connected
        exact story.makes_asked .rest
    | some conn =>
        obtain ⟨pending, hears, stage, _⟩ := (hearing client).2 conn connected
        exact hears.story.makes_asked stage
  · intro client conn connected response replied value among
    obtain ⟨pending, hears, _, _⟩ := (hearing client).2 conn connected
    have said : .replied response ∈ seen conn.history :=
      List.mem_filter.mpr ⟨replied, rfl⟩
    obtain ⟨entry, there, shown⟩ := hears.shown said among
    exact traced.points _ (mem_of_told there) value shown

end Numbers

end Runs

section Talk

def shownEvents : List (ServerEvent Nat) :=
  talkStart ++ talkEvents ++
    [.work (.readClock 0 1001), .work (.readCutoff 0), .work (.act 0), .reply 0]

def shownServer : Server Nat := (run Server.step shownEvents .new).get (by decide +kernel)

def shownConn : Connection :=
  (shownServer.conn 0).get (by decide +kernel)

theorem shown_descends :
    ∃ lineage : List (Nat × Update),
      lineage.Sublist (updates Entry.made (Server.entries shownEvents)) ∧
      (∀ step ∈ lineage, step.2.key = ascii "k") ∧
      rewrites (lineage.map Prod.snd) = some (0, ascii "a") :=
  (values_descend (show run Server.step shownEvents .new = some shownServer from
    (Option.some_get _).symm)).2 0 shownConn (Option.some_get _).symm
    (.values [(ascii "k", 0, ascii "a", none)]) (by decide +kernel)
    (ascii "k", 0, ascii "a", none) List.mem_cons_self

end Talk

end Ousagi

/-
  `PluginHost`: plugins that come and go, and the handlers they put into the server's lists.

  `Core::run` loads the plugins of the configuration and initializes them; after that they are
  loaded and unloaded one at a time. What a plugin adds to the lists in `postinit` it takes out in
  `cleanup`, by name. In every state of every run each list holds the handlers of the plugins that
  are loaded, in the order in which they were loaded, and no others (`handlers_loaded`), although
  a `postinit` may throw, before or behind its handlers, and leave the plugin in the list.

  Handlers are known by the plugin and by the member that holds them. The lists that the server
  keeps for each WebSocket client are filled by connection handlers, not by a `postinit`, and stay
  empty here. A plugin that unloads itself while one of its handlers runs is left out: it returns
  to a library that has been closed.
-/
import Algiz.Lib.Transition
import Algiz.Plugins.Ansuz

namespace Algiz.Plugins

open Algiz.Lib

/-! ## The plugins -/

inductive Kind where
  | ansuz | calculator | countryFilter | default404 | fileserv | game3CI | letsEncrypt | logger
  | probabilityChess | redirect | wsEcho
  deriving DecidableEq

/-- The member of a plugin that holds a handler. -/
inductive Member where
  | handler | getHandler | postHandler | connectionHandler | filterer
  deriving DecidableEq

/-- A plugin that was made. -/
structure Plugin where
  kind : Kind
  /-- no two plugins are the same object -/
  id : Nat
  deriving DecidableEq

/-- What a plugin's `postinit` adds to the lists. -/
def Kind.registers : Kind → List (HandlerList × Member)
  | .ansuz | .fileserv => [(.get, .getHandler), (.post, .postHandler)]
  | .calculator | .default404 | .letsEncrypt | .redirect => [(.get, .handler)]
  | .countryFilter => [(.ipFilters, .filterer)]
  | .game3CI => [(.post, .handler)]
  | .logger => [(.get, .handler), (.post, .handler)]
  | .probabilityChess | .wsEcho => [(.webSocketConnection, .connectionHandler)]

/-- What its `cleanup` takes out of them. -/
def Kind.erases : Kind → List (HandlerList × Member)
  | .ansuz => [(.get, .getHandler), (.post, .postHandler)]
  | .calculator => [(.get, .handler)]
  | .countryFilter => [(.ipFilters, .filterer)]
  | .default404 => [(.get, .handler)]
  | .fileserv => [(.get, .getHandler), (.post, .postHandler)]
  | .game3CI => [(.post, .handler)]
  | .letsEncrypt => [(.get, .handler)]
  | .logger => [(.get, .handler), (.post, .handler)]
  | .probabilityChess => [(.webSocketConnection, .connectionHandler)]
  | .redirect => [(.get, .handler)]
  | .wsEcho => [(.webSocketConnection, .connectionHandler)]

/-- Where a `postinit` can throw, as it reads its configuration. -/
inductive Throws where
  | never
  /-- before it adds anything -/
  | before
  /-- behind what it adds -/
  | behind
  deriving DecidableEq

def Kind.throws : Kind → Throws
  | .game3CI => .before
  | .countryFilter | .fileserv | .letsEncrypt => .behind
  | .ansuz | .calculator | .default404 | .logger | .probabilityChess | .redirect | .wsEcho => .never

/-- The server: its plugins and its lists. -/
abbrev Host (Handle : Type) := PluginHost Plugin Handle (Plugin × Member)

variable {Handle : Type}

namespace PluginHost

/-- `PluginHost::erase`: the first entry that is this handler. -/
def eraseHandler (host : Host Handle) (list : HandlerList) (handler : Plugin × Member) :
    Host Handle :=
  { host with handlers := Function.update host.handlers list ((host.handlers list).erase handler) }

/-- The handlers that `postinit` adds. -/
def registerAll (host : Host Handle) (p : Plugin) : Host Handle :=
  p.kind.registers.foldl (fun host entry => host.register entry.1 (p, entry.2)) host

/-- `plugin->postinit(this)`; `fails` if it throws. -/
def postinit (host : Host Handle) (p : Plugin) (fails : Bool) : Host Handle :=
  if fails = true ∧ p.kind.throws = .before then host else host.registerAll p

/-- `plugin->cleanup(this)` -/
def cleanup (host : Host Handle) (p : Plugin) : Host Handle :=
  p.kind.erases.foldl (fun host entry => host.eraseHandler entry.1 (p, entry.2)) host

end PluginHost

/-- A host, and how many plugins were made so far. -/
structure Hosting (Handle : Type) where
  host : Host Handle := {}
  made : Nat := 0
  /-- the plugins whose `postinit` has added their handlers -/
  registered : List Plugin := []

inductive HostEvent (Handle : Type) where
  /-- a plugin is loaded, and its `postinit` is called -/
  | load (path : Bytes) (kind : Kind) (handle : Handle) (fails : Bool)
  /-- `unloadPlugin` -/
  | unload (tuple : PluginTuple Plugin Handle)

namespace Hosting

/-- `loadPlugin` of a library that makes such a plugin. -/
def loadPlugin (s : Hosting Handle) (path : Bytes) (kind : Kind) (handle : Handle) :
    Hosting Handle :=
  { s with
    host := { s.host with plugins := s.host.plugins ++ [⟨path, ⟨kind, s.made⟩, handle⟩] }
    made := s.made + 1 }

/-- `postinit` of a plugin. -/
def postinit (s : Hosting Handle) (p : Plugin) (fails : Bool) : Hosting Handle :=
  { s with
    host := s.host.postinit p fails
    registered :=
      if fails = true ∧ p.kind.throws = .before then s.registered else s.registered ++ [p] }

/-- `Core::run`, where nothing throws: all plugins are loaded, and then they are initialized. -/
def startUp (configured : List (Bytes × Kind × Handle)) : Hosting Handle :=
  let s : Hosting Handle := configured.foldl (fun s c => s.loadPlugin c.1 c.2.1 c.2.2) {}
  s.host.plugins.foldl (fun s tuple => s.postinit tuple.plugin false) s

variable [DecidableEq Handle]

instance : DecidableEq (PluginTuple Plugin Handle) := fun a b =>
  decidable_of_iff (a.path = b.path ∧ a.plugin = b.plugin ∧ a.handle = b.handle) (by
    cases a
    cases b
    simp)

/-- `unloadPlugin`; `none` if it throws. -/
def unloadPlugin (s : Hosting Handle) (tuple : PluginTuple Plugin Handle) :
    Option (Hosting Handle) :=
  if tuple ∈ s.host.plugins then
    let host := s.host.cleanup tuple.plugin
    some { s with host := { host with plugins := host.plugins.erase tuple } }
  else none

/-- One event; `none` if it cannot happen. -/
def step (s : Hosting Handle) : HostEvent Handle → Option (Hosting Handle)
  | .load path kind handle fails =>
    if fails = true ∧ kind.throws = .never then none
    else some ((s.loadPlugin path kind handle).postinit ⟨kind, s.made⟩ fails)
  | .unload tuple => s.unloadPlugin tuple

/-- `unloadPlugins`, with as many turns of the loop as there are plugins. -/
def unloadPlugins : Nat → Hosting Handle → Option (Hosting Handle)
  | 0, s => if s.host.plugins = [] then some s else none
  | n + 1, s =>
    match s.host.plugins with
    | [] => some s
    | tuple :: _ => (s.unloadPlugin tuple).bind (unloadPlugins n)

end Hosting

/-! ## What is added and what is taken out -/

/-- What a plugin has in a list, once its `postinit` has added its handlers. -/
def Plugin.slots (p : Plugin) (list : HandlerList) : List (Plugin × Member) :=
  (p.kind.registers.filter fun entry => entry.1 = list).map fun entry => (p, entry.2)

theorem Kind.erases_eq (k : Kind) : k.erases = k.registers := by
  cases k <;> rfl

theorem Plugin.fst_of_mem_slots {p : Plugin} {list : HandlerList} {h : Plugin × Member}
    (hmem : h ∈ p.slots list) : h.1 = p := by
  obtain ⟨entry, -, rfl⟩ := List.mem_map.mp hmem
  rfl

/-- No plugin has two handlers in one list. -/
theorem Plugin.slots_nodup (p : Plugin) (list : HandlerList) : (p.slots list).Nodup := by
  have hone : ∀ k : Kind, (k.registers.map Prod.fst).Nodup := by
    intro k
    cases k <;> decide
  have hshort : (p.slots list).length ≤ 1 := by
    unfold slots
    rw [List.length_map, ← List.countP_eq_length_filter]
    have hcount := List.nodup_iff_count_le_one.mp (hone p.kind) list
    rw [List.count, List.countP_map] at hcount
    refine Nat.le_trans (List.countP_mono_left fun entry _ h => ?_) hcount
    simpa using h
  match p.slots list, hshort with
  | [], _ => exact List.nodup_nil
  | [_], _ => exact List.nodup_singleton _
  | _ :: _ :: _, hshort => exact absurd hshort (by simp)

section Lists

variable {host : Host Handle} (p : Plugin)

theorem registers_handlers (entries : List (HandlerList × Member)) (list : HandlerList) :
    (entries.foldl (fun host entry => host.register entry.1 (p, entry.2)) host).handlers list =
      host.handlers list ++
        (entries.filter fun entry => entry.1 = list).map fun entry => (p, entry.2) := by
  induction entries generalizing host with
  | nil => simp
  | cons entry entries ih =>
    rw [List.foldl_cons, ih]
    unfold PluginHost.register
    by_cases hlist : entry.1 = list
    · subst hlist
      simp
    · rw [List.filter_cons_of_neg (by simpa using hlist)]
      dsimp only
      rw [Function.update_of_ne (Ne.symm hlist)]

theorem registers_plugins (entries : List (HandlerList × Member)) :
    (entries.foldl (fun host entry => host.register entry.1 (p, entry.2)) host).plugins =
      host.plugins := by
  induction entries generalizing host with
  | nil => rfl
  | cons entry entries ih => rw [List.foldl_cons, ih]; rfl

theorem erases_handlers (entries : List (HandlerList × Member)) (list : HandlerList) :
    (entries.foldl (fun host entry => host.eraseHandler entry.1 (p, entry.2)) host).handlers list =
      ((entries.filter fun entry => entry.1 = list).map fun entry => (p, entry.2)).foldl List.erase
        (host.handlers list) := by
  induction entries generalizing host with
  | nil => rfl
  | cons entry entries ih =>
    rw [List.foldl_cons, ih]
    unfold PluginHost.eraseHandler
    by_cases hlist : entry.1 = list
    · subst hlist
      simp
    · rw [List.filter_cons_of_neg (by simpa using hlist)]
      dsimp only
      rw [Function.update_of_ne (Ne.symm hlist)]

theorem erases_plugins (entries : List (HandlerList × Member)) :
    (entries.foldl (fun host entry => host.eraseHandler entry.1 (p, entry.2)) host).plugins =
      host.plugins := by
  induction entries generalizing host with
  | nil => rfl
  | cons entry entries ih => rw [List.foldl_cons, ih]; rfl

end Lists

/-- Elements that stand together are erased one after another. -/
theorem foldl_erase_middle {α : Type*} [BEq α] [LawfulBEq α] {front middle back : List α}
    (hfront : ∀ x ∈ middle, x ∉ front) :
    middle.foldl List.erase (front ++ middle ++ back) = front ++ back := by
  induction middle with
  | nil => simp
  | cons x middle ih =>
    have hx : (front ++ x :: middle ++ back).erase x = front ++ middle ++ back := by
      rw [List.append_assoc, List.erase_append_right _ (hfront x List.mem_cons_self),
        List.cons_append, List.erase_cons_head, List.append_assoc]
    rw [List.foldl_cons, hx]
    exact ih fun y hy => hfront y (List.mem_cons_of_mem x hy)

/-- What is not there is not erased. -/
theorem foldl_erase_of_not_mem {α : Type*} [BEq α] [LawfulBEq α] {xs l : List α}
    (h : ∀ x ∈ xs, x ∉ l) : xs.foldl List.erase l = l := by
  induction xs with
  | nil => rfl
  | cons x xs ih =>
    rw [List.foldl_cons, List.erase_of_not_mem (h x List.mem_cons_self)]
    exact ih fun y hy => h y (List.mem_cons_of_mem x hy)

/-! ## The lists and the plugins -/

namespace Hosting

/-- What a plugin has in a list. -/
def slots (s : Hosting Handle) (list : HandlerList) (p : Plugin) : List (Plugin × Member) :=
  if p ∈ s.registered then p.slots list else []

/-- The plugins in the order in which they were loaded. -/
def loaded (s : Hosting Handle) : List Plugin := s.host.plugins.map PluginTuple.plugin

/-- Each list holds the handlers of the loaded plugins, in order. -/
structure InStep (s : Hosting Handle) : Prop where
  handlers : ∀ list, s.host.handlers list = s.loaded.flatMap (s.slots list)
  nodup : s.loaded.Nodup
  ids : ∀ p ∈ s.loaded, p.id < s.made
  registeredIds : ∀ p ∈ s.registered, p.id < s.made

section Steps

variable {s t : Hosting Handle}

theorem slots_of_not_mem {p : Plugin} (h : p ∉ s.registered) (list : HandlerList) :
    s.slots list p = [] := if_neg h

theorem fst_of_mem_slots {list : HandlerList} {p : Plugin} {h : Plugin × Member}
    (hmem : h ∈ s.slots list p) : h.1 = p := by
  unfold slots at hmem
  split at hmem
  · exact Plugin.fst_of_mem_slots hmem
  · exact absurd hmem List.not_mem_nil

/-- Handlers belong to plugins. -/
theorem fst_of_mem_flatMap {plugins : List Plugin} {list : HandlerList} {h : Plugin × Member}
    (hmem : h ∈ plugins.flatMap (s.slots list)) : h.1 ∈ plugins := by
  obtain ⟨p, hp, hslot⟩ := List.mem_flatMap.mp hmem
  exact fst_of_mem_slots hslot ▸ hp

theorem loadPlugin_inStep (h : s.InStep) (path : Bytes) (kind : Kind) (handle : Handle) :
    (s.loadPlugin path kind handle).InStep := by
  have hloaded : (s.loadPlugin path kind handle).loaded = s.loaded ++ [⟨kind, s.made⟩] := by
    simp [loadPlugin, loaded]
  have hnew : (⟨kind, s.made⟩ : Plugin) ∉ s.registered := fun hmem =>
    Nat.lt_irrefl _ (h.registeredIds _ hmem)
  refine ⟨fun list => ?_, ?_, ?_, fun p hp => Nat.lt_succ_of_lt (h.registeredIds p hp)⟩
  · rw [hloaded, List.flatMap_append, List.flatMap_singleton]
    show s.host.handlers list = s.loaded.flatMap (s.slots list) ++ s.slots list _
    rw [slots_of_not_mem hnew, List.append_nil, h.handlers list]
  · rw [hloaded, List.nodup_append]
    refine ⟨h.nodup, List.nodup_singleton _, fun p hp q hq heq => ?_⟩
    have hlt := h.ids p hp
    rw [heq, List.mem_singleton.mp hq] at hlt
    exact Nat.lt_irrefl _ hlt
  · intro p hp
    rw [hloaded, List.mem_append, List.mem_singleton] at hp
    rcases hp with hp | rfl
    · exact Nat.lt_succ_of_lt (h.ids p hp)
    · exact Nat.lt_succ_self _

theorem postinit_loaded (p : Plugin) (fails : Bool) : (s.postinit p fails).loaded = s.loaded := by
  have hplugins : (s.host.postinit p fails).plugins = s.host.plugins := by
    unfold PluginHost.postinit PluginHost.registerAll
    split
    · rfl
    · exact registers_plugins p _
  show (s.host.postinit p fails).plugins.map _ = _
  rw [hplugins]
  rfl

/-- The plugins are initialized in order: none behind this one has been. -/
theorem postinit_inStep (h : s.InStep) {front back : List Plugin} {p : Plugin}
    (hsplit : s.loaded = front ++ p :: back) (hp : p ∉ s.registered)
    (hback : ∀ q ∈ back, q ∉ s.registered) (fails : Bool) : (s.postinit p fails).InStep := by
  have hnodup := h.nodup
  rw [hsplit, List.nodup_append, List.nodup_cons] at hnodup
  obtain ⟨-, ⟨hpback, -⟩, hdisjoint⟩ := hnodup
  have hpfront : p ∉ front := fun hmem => hdisjoint p hmem p List.mem_cons_self rfl
  refine ⟨fun list => ?_, ?_, ?_, ?_⟩
  · rw [postinit_loaded]
    by_cases hfails : fails = true ∧ p.kind.throws = .before
    · have hsame : s.postinit p fails = s := by
        unfold postinit PluginHost.postinit
        rw [if_pos hfails, if_pos hfails]
      rw [hsame]
      exact h.handlers list
    · have hregistered : (s.postinit p fails).registered = s.registered ++ [p] := if_neg hfails
      have hhandlers : (s.postinit p fails).host.handlers list =
          s.host.handlers list ++ p.slots list := by
        show (s.host.postinit p fails).handlers list = _
        unfold PluginHost.postinit
        rw [if_neg hfails]
        exact registers_handlers p _ list
      have hother : ∀ q, q ≠ p → (s.postinit p fails).slots list q = s.slots list q := by
        intro q hq
        unfold slots
        rw [hregistered]
        simp [hq]
      have hself : (s.postinit p fails).slots list p = p.slots list := by
        unfold slots
        rw [hregistered]
        simp
      have hfront : front.flatMap ((s.postinit p fails).slots list) =
          front.flatMap (s.slots list) :=
        List.flatMap_congr fun q hq => hother q fun heq => hpfront (heq ▸ hq)
      have hnone : back.flatMap (s.slots list) = [] := by
        rw [List.flatMap_eq_nil_iff]
        exact fun q hq => slots_of_not_mem (hback q hq) list
      have hback' : back.flatMap ((s.postinit p fails).slots list) = [] := by
        rw [← hnone]
        exact List.flatMap_congr fun q hq => hother q fun heq => hpback (heq ▸ hq)
      rw [hhandlers, h.handlers list, hsplit, List.flatMap_append, List.flatMap_cons,
        List.flatMap_append, List.flatMap_cons, hfront, hself, hback', hnone,
        slots_of_not_mem hp list]
      simp
  · rw [postinit_loaded]
    exact h.nodup
  · rw [postinit_loaded]
    exact h.ids
  · intro q hq
    have hmem : q ∈ s.registered ∨ q = p := by
      change q ∈ (if _ then _ else _) at hq
      split at hq
      · exact .inl hq
      · simpa using hq
    rcases hmem with hmem | rfl
    · exact h.registeredIds q hmem
    · refine h.ids q ?_
      rw [hsplit]
      exact List.mem_append_right _ List.mem_cons_self

/-- A plugin and those before and behind it. -/
theorem InStep.split_at (h : s.InStep) {tuple : PluginTuple Plugin Handle}
    (hmem : tuple ∈ s.host.plugins) : ∃ front back, s.host.plugins = front ++ tuple :: back ∧
      tuple.plugin ∉ front.map PluginTuple.plugin ∧ tuple.plugin ∉ back.map PluginTuple.plugin := by
  obtain ⟨front, back, hsplit⟩ := List.append_of_mem hmem
  have hnodup := h.nodup
  unfold loaded at hnodup
  rw [hsplit, List.map_append, List.map_cons, List.nodup_append, List.nodup_cons] at hnodup
  obtain ⟨-, ⟨hback, -⟩, hdisjoint⟩ := hnodup
  exact ⟨front, back, hsplit, fun hin => hdisjoint _ hin _ List.mem_cons_self rfl, hback⟩

/-- Unloading takes the plugin's handlers out, and no others. -/
theorem unloadPlugin_inStep [DecidableEq Handle] (h : s.InStep)
    {tuple : PluginTuple Plugin Handle} (hunload : s.unloadPlugin tuple = some t) :
    t.InStep ∧ t.host.plugins = s.host.plugins.erase tuple := by
  unfold unloadPlugin at hunload
  split at hunload
  · rename_i hmem
    obtain rfl := Option.some.inj hunload
    obtain ⟨front, back, hsplit, hfront, hback⟩ := h.split_at hmem
    have hloaded : s.loaded = front.map PluginTuple.plugin ++
        tuple.plugin :: back.map PluginTuple.plugin := by
      unfold loaded
      rw [hsplit, List.map_append, List.map_cons]
    have hplugins : (s.host.cleanup tuple.plugin).plugins.erase tuple = front ++ back := by
      have htuple : tuple ∉ front := fun hin => hfront (List.mem_map_of_mem hin)
      rw [show (s.host.cleanup tuple.plugin).plugins = s.host.plugins from erases_plugins _ _,
        hsplit, List.erase_append_right _ htuple, List.erase_cons_head]
    have hleft : ∀ p ∈ front.map PluginTuple.plugin ++ back.map PluginTuple.plugin,
        p ∈ s.loaded := by
      intro p hp
      rw [hloaded]
      rcases List.mem_append.mp hp with hp | hp
      · exact List.mem_append_left _ hp
      · exact List.mem_append_right _ (List.mem_cons_of_mem _ hp)
    have hnew : ({ s with host := { s.host.cleanup tuple.plugin with
        plugins := (s.host.cleanup tuple.plugin).plugins.erase tuple } } : Hosting Handle).loaded =
          front.map PluginTuple.plugin ++ back.map PluginTuple.plugin := by
      unfold loaded
      rw [hplugins, List.map_append]
    refine ⟨⟨fun list => ?_, ?_, ?_, h.registeredIds⟩, ?_⟩
    · rw [hnew]
      show (s.host.cleanup tuple.plugin).handlers list =
        (front.map _ ++ back.map _).flatMap (s.slots list)
      unfold PluginHost.cleanup
      rw [erases_handlers, Kind.erases_eq, h.handlers list, hloaded, List.flatMap_append,
        List.flatMap_cons, List.flatMap_append, ← List.append_assoc]
      show (tuple.plugin.slots list).foldl List.erase _ = _
      have hbefore : ∀ x ∈ tuple.plugin.slots list,
          x ∉ (front.map PluginTuple.plugin).flatMap (s.slots list) := fun x hx hin =>
        hfront (Plugin.fst_of_mem_slots hx ▸ fst_of_mem_flatMap hin)
      have hafter : ∀ x ∈ tuple.plugin.slots list,
          x ∉ (back.map PluginTuple.plugin).flatMap (s.slots list) := fun x hx hin =>
        hback (Plugin.fst_of_mem_slots hx ▸ fst_of_mem_flatMap hin)
      by_cases hregistered : tuple.plugin ∈ s.registered
      · rw [show s.slots list tuple.plugin = tuple.plugin.slots list from if_pos hregistered]
        exact foldl_erase_middle hbefore
      · -- its `postinit` has thrown before its handlers
        rw [slots_of_not_mem hregistered, List.append_nil]
        refine foldl_erase_of_not_mem fun x hx hin => ?_
        rcases List.mem_append.mp hin with hin | hin
        · exact hbefore x hx hin
        · exact hafter x hx hin
    · rw [hnew]
      have hsub : (front.map PluginTuple.plugin ++ back.map PluginTuple.plugin).Sublist
          s.loaded := by
        rw [hloaded]
        exact (List.Sublist.refl _).append (List.sublist_cons_self _ _)
      exact h.nodup.sublist hsub
    · rw [hnew]
      exact fun p hp => h.ids p (hleft p hp)
    · show (s.host.cleanup tuple.plugin).plugins.erase tuple = _
      rw [show (s.host.cleanup tuple.plugin).plugins = s.host.plugins from erases_plugins _ _]
  · exact nomatch hunload

theorem step_inStep [DecidableEq Handle] (h : s.InStep) {e : HostEvent Handle}
    (hstep : s.step e = some t) : t.InStep := by
  cases e with
  | load path kind handle fails =>
    rw [step] at hstep
    split at hstep
    · exact nomatch hstep
    · obtain rfl := Option.some.inj hstep
      have hnew : (⟨kind, s.made⟩ : Plugin) ∉ s.registered := fun hmem =>
        Nat.lt_irrefl _ (h.registeredIds _ hmem)
      have hlast : (s.loadPlugin path kind handle).loaded = s.loaded ++ [⟨kind, s.made⟩] := by
        simp [loadPlugin, loaded]
      exact postinit_inStep (loadPlugin_inStep h path kind handle) hlast hnew
        (fun q hq => absurd hq List.not_mem_nil) fails
  | unload tuple => exact (unloadPlugin_inStep h hstep).1

/-! ## Runs -/

theorem foldl_loadPlugin_inStep (h : s.InStep) (hnone : s.registered = [])
    (configured : List (Bytes × Kind × Handle)) :
    let t := configured.foldl (fun s c => s.loadPlugin c.1 c.2.1 c.2.2) s
    t.InStep ∧ t.registered = [] := by
  induction configured generalizing s with
  | nil => exact ⟨h, hnone⟩
  | cons c configured ih => exact ih (loadPlugin_inStep h c.1 c.2.1 c.2.2) hnone

/-- The plugins are initialized one after another. -/
theorem foldl_postinit_inStep {front back : List (PluginTuple Plugin Handle)} (h : s.InStep)
    (hsplit : s.loaded = (front ++ back).map PluginTuple.plugin)
    (hregistered : s.registered = front.map PluginTuple.plugin) :
    (back.foldl (fun s tuple => s.postinit tuple.plugin false) s).InStep := by
  induction back generalizing front s with
  | nil => exact h
  | cons tuple back ih =>
    have hnodup := h.nodup
    rw [hsplit, List.map_append, List.map_cons, List.nodup_append, List.nodup_cons] at hnodup
    obtain ⟨-, ⟨-, -⟩, hdisjoint⟩ := hnodup
    have hp : tuple.plugin ∉ s.registered := by
      rw [hregistered]
      exact fun hin => hdisjoint _ hin _ List.mem_cons_self rfl
    have hback : ∀ q ∈ back.map PluginTuple.plugin, q ∉ s.registered := by
      rw [hregistered]
      exact fun q hq hin => hdisjoint _ hin _ (List.mem_cons_of_mem _ hq) rfl
    have hnext : s.loaded = front.map PluginTuple.plugin ++
        tuple.plugin :: back.map PluginTuple.plugin := by
      rw [hsplit, List.map_append, List.map_cons]
    have hloaded : (s.postinit tuple.plugin false).loaded =
        (front ++ [tuple] ++ back).map PluginTuple.plugin := by
      rw [postinit_loaded, hsplit]
      simp
    have hinitialized : (s.postinit tuple.plugin false).registered =
        (front ++ [tuple]).map PluginTuple.plugin := by
      have hcalled : (s.postinit tuple.plugin false).registered =
          s.registered ++ [tuple.plugin] := by
        simp [postinit]
      rw [hcalled, hregistered, List.map_append, List.map_singleton]
    exact ih (postinit_inStep h hnext hp hback false) hloaded hinitialized

theorem startUp_inStep (configured : List (Bytes × Kind × Handle)) :
    (startUp configured).InStep := by
  have hempty : ({} : Hosting Handle).InStep :=
    ⟨fun _ => rfl, List.nodup_nil, fun _ hp => absurd hp List.not_mem_nil,
      fun _ hp => absurd hp List.not_mem_nil⟩
  obtain ⟨hloaded, hnone⟩ := foldl_loadPlugin_inStep hempty rfl configured
  exact @foldl_postinit_inStep _ _ [] _ hloaded rfl hnone

/-- `unloadPlugins` ends, and leaves no plugin and no handler. -/
theorem unloadPlugins_empties [DecidableEq Handle] (h : s.InStep) :
    ∃ t, unloadPlugins s.host.plugins.length s = some t ∧ t.host.plugins = [] ∧
      ∀ list, t.host.handlers list = [] := by
  generalize hn : s.host.plugins.length = n
  induction n generalizing s with
  | zero =>
    have hnil := List.length_eq_zero_iff.mp hn
    refine ⟨s, if_pos hnil, hnil, fun list => ?_⟩
    rw [h.handlers list]
    unfold loaded
    rw [hnil]
    rfl
  | succ n ih =>
    cases hplugins : s.host.plugins with
    | nil =>
      rw [hplugins] at hn
      exact nomatch hn
    | cons tuple rest =>
      have hmem : tuple ∈ s.host.plugins := hplugins ▸ List.mem_cons_self
      obtain ⟨u, hu⟩ : ∃ u, s.unloadPlugin tuple = some u := ⟨_, if_pos hmem⟩
      obtain ⟨hinStep, hleft⟩ := unloadPlugin_inStep h hu
      rw [hplugins, List.erase_cons_head] at hleft
      rw [hplugins, List.length_cons] at hn
      obtain ⟨t, ht, hempty⟩ := ih hinStep (by rw [hleft]; omega)
      refine ⟨t, ?_, hempty⟩
      rw [unloadPlugins, hplugins]
      dsimp only
      rw [hu]
      exact ht

end Steps

/-- What holds of the lists in every state. -/
structure Sound [DecidableEq Handle] (s : Hosting Handle) : Prop where
  /-- the handlers of the loaded plugins, in the order in which they were loaded -/
  handlers : ∀ list, s.host.handlers list = s.loaded.flatMap (s.slots list)
  /-- none of them has expired -/
  alive : ∀ list, ∀ h ∈ s.host.handlers list, h.1 ∈ s.loaded
  /-- each is there once -/
  once : ∀ list, (s.host.handlers list).Nodup
  /-- unloading all plugins takes out all handlers -/
  unloads : ∃ t, unloadPlugins s.host.plugins.length s = some t ∧ t.host.plugins = [] ∧
    ∀ list, t.host.handlers list = []

theorem InStep.soundly [DecidableEq Handle] {s : Hosting Handle} (h : s.InStep) : s.Sound := by
  have halive : ∀ list, ∀ x ∈ s.host.handlers list, x.1 ∈ s.loaded := by
    intro list x hx
    rw [h.handlers list] at hx
    exact fst_of_mem_flatMap hx
  refine ⟨h.handlers, halive, fun list => ?_, unloadPlugins_empties h⟩
  rw [h.handlers list, List.nodup_flatMap]
  refine ⟨fun p _ => ?_, h.nodup.imp fun {p q} hne x hx hx' => ?_⟩
  · unfold slots
    split
    · exact p.slots_nodup list
    · exact List.nodup_nil
  · exact hne ((fst_of_mem_slots hx).symm.trans (fst_of_mem_slots hx'))

/-- Whatever plugins are configured, and are loaded and unloaded afterwards, in every state each
    list holds the handlers of the loaded plugins, in order, each once, and unloading them all
    leaves none. -/
theorem handlers_loaded [DecidableEq Handle] (configured : List (Bytes × Kind × Handle))
    (es : List (HostEvent Handle)) : AllStates step Sound (startUp configured) es :=
  AllStates.of_invariant (fun _ _ _ h hstep => step_inStep h hstep) (fun _ h => h.soundly) es
    (startUp_inStep configured)

end Hosting

end Algiz.Plugins

/-
Which blocks make a proxy handler.

`ProxyHandler::Init` documents two formats for its block, the host before the port and
the port before the host.  It finds out which one it has by the first token of all, and
then takes the second tokens of the first two statements, whatever the first ones are,
however many there are, and whether they are there or not (`init_ok_iff`).  Nothing ever
makes it return an error, so a block is treated as it should be if and only if there is
nothing wrong with it (`validates_iff`).
-/
import JustEnough.Server.Options
import JustEnough.Server.ProxyHandler

namespace JustEnough

namespace ProxyHandler

/-- `Init`, as the options call it. -/
def initHandler (uriPrefix : Str) (config : NginxConfig) : Except Fault (Option ProxyHandler) :=
  (init uriPrefix config).map some

/-- The registered handlers are this one. -/
def proxyHandlers : Registry ProxyHandler := fun type =>
  if type = lit "ProxyHandler" then some { init := initHandler, delete := fun _ _ => .ok () }
  else none

variable {uriPrefix : Str} {config : NginxConfig}

/-- `remote_host host` and `remote_port port`, in either order, and nothing else. -/
def Formatted (config : NginxConfig) (host port : Str) : Prop :=
  config.map (·.tokens) = [[lit "remote_host", host], [lit "remote_port", port]] ∨
    config.map (·.tokens) = [[lit "remote_port", port], [lit "remote_host", host]]

/-- A block in a documented format is accepted with its host and port, every other one is not. -/
structure Validates (uriPrefix : Str) (config : NginxConfig) : Prop where
  accepts : ∀ host port, Formatted config host port →
    initHandler uriPrefix config
      = .ok (some { uriPrefix, remoteHost := host, remotePort := port })
  rejects : (¬∃ host port, Formatted config host port) → initHandler uriPrefix config = .ok none

theorem tokenOf_eq_ok_iff {j i : Nat} {token : Str} :
    tokenOf config j i = .ok token ↔
      ∃ statement, config[j]? = some statement ∧ statement.tokens[i]? = some token := by
  unfold tokenOf
  cases config[j]? with
  | none => simp
  | some statement =>
      cases htoken : statement.tokens[i]? with
      | none => simp [htoken]
      | some t => simp [htoken]

/-- The first token decides which statement is taken for the host. -/
theorem init_eq {key : Str} (hkey : tokenOf config 0 0 = .ok key) {first second : Str}
    (hfirst : tokenOf config 0 1 = .ok first) (hsecond : tokenOf config 1 1 = .ok second) :
    init uriPrefix config = .ok (if key = lit "remote_port"
      then { uriPrefix, remoteHost := second, remotePort := first }
      else { uriPrefix, remoteHost := first, remotePort := second }) := by
  unfold init
  rw [hkey, ok_bind]
  by_cases hport : key = lit "remote_port"
  · simp only [if_pos hport, hsecond, ok_bind, Nat.sub_self, hfirst]
    rfl
  · simp only [if_neg hport, hfirst, ok_bind, Nat.sub_zero, hsecond]
    rfl

theorem init_formatted {host port : Str} (h : Formatted config host port) :
    init uriPrefix config = .ok { uriPrefix, remoteHost := host, remotePort := port } := by
  rcases h with h | h
  · obtain ⟨a, rest, rfl, ha, hrest⟩ := List.map_eq_cons_iff.mp h
    obtain ⟨b, rest', rfl, hb, -⟩ := List.map_eq_cons_iff.mp hrest
    rw [init_eq (tokenOf_eq_ok_iff.mpr ⟨a, rfl, by rw [ha]; rfl⟩)
      (tokenOf_eq_ok_iff.mpr ⟨a, rfl, by rw [ha]; rfl⟩)
      (tokenOf_eq_ok_iff.mpr ⟨b, rfl, by rw [hb]; rfl⟩), if_neg (by decide)]
  · obtain ⟨a, rest, rfl, ha, hrest⟩ := List.map_eq_cons_iff.mp h
    obtain ⟨b, rest', rfl, hb, -⟩ := List.map_eq_cons_iff.mp hrest
    rw [init_eq (tokenOf_eq_ok_iff.mpr ⟨a, rfl, by rw [ha]; rfl⟩)
      (tokenOf_eq_ok_iff.mpr ⟨a, rfl, by rw [ha]; rfl⟩)
      (tokenOf_eq_ok_iff.mpr ⟨b, rfl, by rw [hb]; rfl⟩), if_pos rfl]

/-- **What is accepted is everything that starts with two statements of two tokens.** -/
theorem init_ok_iff : (∃ handler, init uriPrefix config = .ok handler) ↔
    ∃ a b rest, config = a :: b :: rest ∧ 2 ≤ a.tokens.length ∧ 2 ≤ b.tokens.length := by
  have htoken : ∀ {statement : NginxConfigStatement} {i : Nat}, i < 2 → 2 ≤ statement.tokens.length →
      ∃ token, statement.tokens[i]? = some token := by
    intro statement i hi hlength
    exact ⟨_, List.getElem?_eq_getElem (by omega)⟩
  have hread : ∀ {j k : Nat} {handler : ProxyHandler}, (do
      let remoteHost ← tokenOf config j 1
      let remotePort ← tokenOf config k 1
      return ({ uriPrefix, remoteHost, remotePort } : ProxyHandler)) = .ok handler →
      (∃ token, tokenOf config j 1 = .ok token) ∧ ∃ token, tokenOf config k 1 = .ok token := by
    intro j k handler h
    cases hj : tokenOf config j 1 with
    | error e =>
        rw [hj] at h
        cases h
    | ok t =>
        rw [hj, ok_bind] at h
        cases hk : tokenOf config k 1 with
        | error e =>
            rw [hk] at h
            cases h
        | ok u => exact ⟨⟨t, rfl⟩, u, rfl⟩
  constructor
  · rintro ⟨handler, h⟩
    unfold init at h
    obtain ⟨⟨first, hfirst⟩, second, hsecond⟩ :
        (∃ token, tokenOf config 0 1 = .ok token) ∧ ∃ token, tokenOf config 1 1 = .ok token := by
      cases hkey : tokenOf config 0 0 with
      | error e =>
          rw [hkey] at h
          cases h
      | ok key =>
          rw [hkey, ok_bind] at h
          by_cases hport : key = lit "remote_port"
          · simp only [if_pos hport, Nat.sub_self] at h
            exact (hread h).symm
          · simp only [if_neg hport, Nat.sub_zero] at h
            exact hread h
    obtain ⟨a, ha, hfirst⟩ := tokenOf_eq_ok_iff.mp hfirst
    obtain ⟨b, hb, hsecond⟩ := tokenOf_eq_ok_iff.mp hsecond
    obtain ⟨hlenA, -⟩ := List.getElem?_eq_some_iff.mp hfirst
    obtain ⟨hlenB, -⟩ := List.getElem?_eq_some_iff.mp hsecond
    match config, ha, hb with
    | _ :: _ :: rest, ha, hb =>
        obtain rfl := Option.some.inj ha
        obtain rfl := Option.some.inj hb
        exact ⟨_, _, rest, rfl, hlenA, hlenB⟩
  · rintro ⟨a, b, rest, rfl, ha, hb⟩
    obtain ⟨key, hkey⟩ := htoken (by decide : 0 < 2) ha
    obtain ⟨first, hfirst⟩ := htoken (by decide : 1 < 2) ha
    obtain ⟨second, hsecond⟩ := htoken (by decide : 1 < 2) hb
    exact ⟨_, init_eq (tokenOf_eq_ok_iff.mpr ⟨a, rfl, hkey⟩) (tokenOf_eq_ok_iff.mpr ⟨a, rfl, hfirst⟩)
      (tokenOf_eq_ok_iff.mpr ⟨b, rfl, hsecond⟩)⟩

/-- It never returns an error. -/
theorem initHandler_ne_none : initHandler uriPrefix config ≠ .ok none := by
  unfold initHandler
  cases init uriPrefix config with
  | error e => exact fun h => by cases h
  | ok handler => exact fun h => by cases h

/-- **Blocks are validated exactly where there is nothing to reject.** -/
theorem validates_iff (uriPrefix : Str) (config : NginxConfig) :
    Validates uriPrefix config ↔ ∃ host port, Formatted config host port := by
  constructor
  · intro h
    by_contra hnot
    exact initHandler_ne_none (h.rejects hnot)
  · intro hformat
    refine ⟨fun host port h => ?_, fun hnot => absurd hformat hnot⟩
    rw [initHandler, init_formatted h]
    rfl

/-- A misspelt key is accepted, and a block without a port is read past its end. -/
theorem blocks_not_validated :
    initHandler (lit "/p") [.mk [lit "remote_hots", lit "a.b"] none, .mk [lit "x", lit "80"] none]
      = .ok (some { uriPrefix := lit "/p", remoteHost := lit "a.b", remotePort := lit "80" }) ∧
    ¬Validates (lit "/p") [.mk [lit "remote_hots", lit "a.b"] none, .mk [lit "x", lit "80"] none] ∧
    loadOptionsFromStream proxyHandlers
      (lit "port 8080; path /p ProxyHandler \x7b remote_host a.b; \x7d") .fresh
        = .error .undefinedBehaviour := by
  have haccepted : initHandler (lit "/p")
      [.mk [lit "remote_hots", lit "a.b"] none, .mk [lit "x", lit "80"] none]
        = .ok (some { uriPrefix := lit "/p", remoteHost := lit "a.b", remotePort := lit "80" }) := by
    decide
  have hfault : (loadOptionsFromStream proxyHandlers
      (lit "port 8080; path /p ProxyHandler \x7b remote_host a.b; \x7d") .fresh).map (fun _ => ())
        = .error .undefinedBehaviour := by
    decide +kernel
  refine ⟨haccepted, ?_, ?_⟩
  · intro h
    have hrejected := h.rejects ?_
    · rw [haccepted] at hrejected
      cases hrejected
    · rintro ⟨host, port, hformat | hformat⟩
      · exact absurd (List.cons.inj (List.cons.inj hformat).1).1 (by decide)
      · exact absurd (List.cons.inj (List.cons.inj hformat).1).1 (by decide)
  · cases hload : loadOptionsFromStream proxyHandlers
      (lit "port 8080; path /p ProxyHandler \x7b remote_host a.b; \x7d") .fresh with
    | error e =>
        rw [hload] at hfault
        exact congrArg Except.error (Except.error.inj hfault)
    | ok opt =>
        rw [hload] at hfault
        cases hfault

end ProxyHandler

end JustEnough

import Playable.Network.Transport
import Playable.Proofs.Register

/-!
# Which proxy a request goes through

The URLs of a pattern are transported by its route. The own proxy of a route comes before the
common one, so the common proxy matters only to routes that use a proxy and have none of their own,
and to the pattern of all URLs.
-/

namespace Playable.Network

/-- A route decides about its proxy alone: it uses none, or it has its own. -/
def Route.DecidesProxy (route : Route) : Prop :=
  route.proxied = true → ∃ url ∈ route.proxyUrl, url ≠ []

namespace TransportConfig

/-- The last route of a pattern, which is the one that counts. -/
def routeOf? (config : TransportConfig) (pattern : Text) : Option Route :=
  Register.get? config.routes.reverse pattern

/-- All URLs have a transport of their own: the common proxy is used for them, or certificates are
not checked. -/
def CoversAll (config : TransportConfig) : Prop :=
  config.neverVerify = true ∨ config.proxyAll = true ∧ ∃ url ∈ config.proxyUrl, url ≠ []

instance (config : TransportConfig) : Decidable config.CoversAll :=
  inferInstanceAs (Decidable (_ ∨ _))

variable {config other : TransportConfig} {route : Route} {pattern : Text}

/-- The transport of a route that decides about its proxy depends on nothing but whether
certificates are checked. -/
theorem transport_congr (hverify : other.neverVerify = config.neverVerify)
    (h : route.DecidesProxy) : other.transport route = config.transport route := by
  rw [transport, transport, hverify]
  cases hproxied : route.proxied with
  | false => rfl
  | true =>
    obtain ⟨url, hurl, hne⟩ := h hproxied
    obtain ⟨c, more, rfl⟩ := List.exists_cons_of_ne_nil hne
    rw [Option.mem_def.mp hurl]

/-- Any other route uses the common proxy. -/
theorem transport_of_not_decides (h : ¬ route.DecidesProxy) :
    (config.transport route).proxy = config.proxyUrl := by
  obtain ⟨hproxied, hnone⟩ := Classical.not_imp.mp h
  simp only [transport, hproxied, Bool.not_true, Bool.false_eq_true, if_false]
  rcases hurl : route.proxyUrl with _ | _ | ⟨c, more⟩
  · rfl
  · rfl
  · exact absurd ⟨_, hurl, List.cons_ne_nil c more⟩ hnone

/-- Every pattern has the transport of its last route, and the pattern of all URLs may have one of
its own. -/
theorem get?_mounts (config : TransportConfig) (pattern : Text) :
    Register.get? config.mounts pattern =
      if pattern = allUrls ∧ config.CoversAll then
        some ⟨!config.neverVerify, if config.proxyAll then config.proxyUrl else none⟩
      else (config.routeOf? pattern).map config.transport := by
  have hroutes : Register.get?
      (Register.ofPairs (config.routes.map fun r => (r.1, config.transport r.2))) pattern =
        (config.routeOf? pattern).map config.transport := by
    rw [Register.get?_ofPairs, ← List.map_reverse, Register.get?_map_value, routeOf?]
  have hcovers : ((if config.proxyAll then config.proxyUrl else none).any (· ≠ []) ||
      config.neverVerify) = true ↔ config.CoversAll := by
    rw [CoversAll, Bool.or_eq_true, or_comm]
    cases config.proxyAll <;> simp [Option.any_eq_true]
  rw [mounts]
  by_cases hall : config.CoversAll
  · simp only [if_pos (hcovers.mpr hall), Register.get?_set, hroutes, hall, and_true,
      eq_comm (a := allUrls)]
  · simp only [if_neg (mt hcovers.mp hall), hroutes, hall, and_false, if_false]

/-- Of two configurations with the same routes and the same checks, both transport the URLs of a
pattern in the same way if the last route of the pattern decides about its proxy, whatever their
common proxies are. If it does not, each goes through its common proxy. The pattern of all URLs is
the only one for which this need not hold. -/
theorem own_proxy_comes_first (hroutes : other.routes = config.routes)
    (hverify : other.neverVerify = config.neverVerify) (hpattern : pattern ≠ allUrls)
    (hroute : config.routeOf? pattern = some route) :
    (route.DecidesProxy →
      Register.get? other.mounts pattern = Register.get? config.mounts pattern) ∧
    (¬ route.DecidesProxy → ∀ either ∈ [config, other],
      (Register.get? either.mounts pattern).map (·.proxy) = some either.proxyUrl) := by
  have hmount (either : TransportConfig) (heither : either.routes = config.routes) :
      Register.get? either.mounts pattern = some (either.transport route) := by
    rw [get?_mounts, if_neg fun h => hpattern h.1, routeOf?, heither, ← routeOf?, hroute]
    rfl
  refine ⟨fun h => ?_, fun h either heither => ?_⟩
  · rw [hmount other hroutes, hmount config rfl, transport_congr hverify h]
  · have hsame : either.routes = config.routes := by
      rcases List.mem_pair.mp heither with rfl | rfl
      · rfl
      · exact hroutes
    rw [hmount either hsame, Option.map_some, transport_of_not_decides h]

end TransportConfig
end Playable.Network

import Mathlib.Data.List.Flatten
import Zooffice.Infra.Model.DynamicCacheConfig
/-!
# The peers that a controller lists

A cluster URI is a host, or a host and a port. The list should hold one
URL for each cache of every other controller. The test that leaves the
controller itself out compares texts, before the default port and the
address of the host are known: it passes over the URI that is written
`ip:port`, and over no other way of writing it.
-/


namespace Zooffice

open DynamicCacheConfig

/-- Lists put together out of parts of other lists are the same only if
the parts are. -/
theorem flatMap_eq_iff_of_sublist {α β : Type*} {f g : α → List β} {l : List α}
    (h : ∀ a ∈ l, (f a).Sublist (g a)) : l.flatMap f = l.flatMap g ↔ ∀ a ∈ l, f a = g a := by
  induction l with
  | nil => simp
  | cons a l ih =>
      rw [List.forall_mem_cons] at h ⊢
      rw [← ih h.2, List.flatMap_cons, List.flatMap_cons]
      constructor
      · intro heq
        have hhead := h.1.length_le
        have htail := (List.Sublist.flatMap_right l h.2).length_le
        have hlength := congrArg List.length heq
        rw [List.length_append, List.length_append] at hlength
        exact List.append_inj heq (by omega)
      · rintro ⟨hhead, htail⟩
        rw [hhead, htail]

/-- A cluster URI of the form `host` or `host:port`, with the digits of
the port. -/
structure ClusterUri where
  host : Text
  port : Option Text
  host_ne_nil : host ≠ []
  host_proper : ':' ∉ host ∧ ';' ∉ host
  port_digits : ∀ p ∈ port, p ≠ [] ∧ (∀ c ∈ p, c.isDigit = true) ∧ Nat.ofDigitChars 10 p 0 ≤ maxInt

namespace ClusterUri

/-- The URI as it stands in the configuration. -/
def text (u : ClusterUri) : Text :=
  match u.port with
  | none => u.host
  | some p => u.host ++ ':' :: p

/-- The number of its port, or the default. -/
def portOr (u : ClusterUri) (default : Nat) : Int :=
  match u.port with
  | none => default
  | some p => Nat.ofDigitChars 10 p 0

/-- The address and the port that the URI leads to. -/
def address (net : Network) (default : Nat) (u : ClusterUri) : Option (Text × Int) :=
  (resolve net u.host).map fun ip => (ip, u.portOr default)

theorem colon_not_mem_port {u : ClusterUri} {p : Text} (hp : u.port = some p) : ':' ∉ p :=
  fun hmem => absurd ((u.port_digits p hp).2.1 ':' hmem) (by decide)

/-- It is not empty, and has no semicolon. -/
theorem text_proper (u : ClusterUri) : u.text ≠ [] ∧ ';' ∉ u.text := by
  rw [text]
  cases hu : u.port with
  | none => exact ⟨u.host_ne_nil, u.host_proper.2⟩
  | some p =>
      refine ⟨by simp [u.host_ne_nil], fun hmem => ?_⟩
      rcases List.mem_append.1 hmem with hhost | hrest
      · exact u.host_proper.2 hhost
      · rcases List.mem_cons.1 hrest with hcolon | hport
        · exact absurd hcolon (by decide)
        · exact absurd ((u.port_digits p hu).2.1 ';' hport) (by decide)

/-- **The text is split into the host and the port.** -/
theorem splitTokens_text (u : ClusterUri) : splitTokens u.text ':' = u.host :: u.port.toList := by
  have hpieces : u.text = [':'].intercalate (u.host :: u.port.toList) := by
    rw [text]
    cases u.port with
    | none => simp [List.intercalate]
    | some p => simp [List.intercalate]
  rw [hpieces]
  refine splitTokens_intercalate fun piece hpiece => ?_
  rcases List.mem_cons.1 hpiece with rfl | hport
  · exact ⟨u.host_ne_nil, u.host_proper.1⟩
  · have hport := Option.mem_toList.1 hport
    exact ⟨(u.port_digits piece hport).1, colon_not_mem_port hport⟩

end ClusterUri

/-- A node of the cluster: its own address, the port it listens at and the
cluster URIs of its configuration. -/
structure ClusterNode where
  currentIP : Text
  port : Nat
  uris : List ClusterUri

namespace ClusterNode

variable {net : Network} {n : ClusterNode} {caches : List Text}

/-- The configuration that it reads. -/
def config (n : ClusterNode) : ClusterConfig where
  clusterUris := [';'].intercalate (n.uris.map ClusterUri.text)
  currentIP := n.currentIP
  cacheListenerPort := n.port

/-- Where the node itself is reached. -/
def ownAddress (net : Network) (n : ClusterNode) : Option (Text × Int) :=
  (resolve net n.currentIP).map fun ip => (ip, n.port)

/-- The URI leads to the node itself. -/
def IsOwn (net : Network) (n : ClusterNode) (u : ClusterUri) : Prop :=
  ∃ address, u.address net n.port = some address ∧ n.ownAddress net = some address

instance (net : Network) (n : ClusterNode) (u : ClusterUri) : Decidable (n.IsOwn net u) :=
  decidable_of_iff (u.address net n.port ≠ none ∧ u.address net n.port = n.ownAddress net) <| by
    unfold IsOwn
    cases u.address net n.port with
    | none => simp
    | some address => simp [eq_comm]

/-- The URLs of a URI that leads somewhere. -/
def urlsAt (caches : List Text) (address : Option (Text × Int)) : List Text :=
  match address with
  | none => []
  | some (ip, port) => caches.map (rmiUrl ip port)

/-- What should be listed for a URI: one URL for each cache, when it
resolves and is not the node's own. -/
def expectedUrls (net : Network) (n : ClusterNode) (caches : List Text) (u : ClusterUri) :
    List Text :=
  if n.IsOwn net u then [] else urlsAt caches (u.address net n.port)

/-- The peers that should be listed, in the order of the URIs. -/
def peerUrls (net : Network) (n : ClusterNode) (caches : List Text) : List Text :=
  n.uris.flatMap (n.expectedUrls net caches)

/-! ## What the code lists -/

theorem getClusterURIs_config : n.config.getClusterURIs = n.uris.map ClusterUri.text := by
  refine splitTokens_intercalate fun piece hpiece => ?_
  obtain ⟨u, -, rfl⟩ := List.mem_map.1 hpiece
  exact u.text_proper

/-- What stands in the list for a URI: nothing when it is written like the
node itself, else its URLs. -/
def listedUrls (net : Network) (n : ClusterNode) (caches : List Text) (u : ClusterUri) :
    List Text :=
  if u.text = n.config.current then [] else urlsAt caches (u.address net n.port)

theorem portOf_port (u : ClusterUri) (default : Nat) :
    portOf default u.port.toList = u.portOr default := by
  rw [ClusterUri.portOr]
  cases hu : u.port with
  | none => rfl
  | some p =>
      obtain ⟨hne, hdigits, hmax⟩ := u.port_digits p hu
      exact toInt_of_digits hne hdigits hmax

theorem urisOf_text (u : ClusterUri) :
    urisOf net n.config caches u.text = .ok (n.listedUrls net caches u) := by
  rw [urisOf, listedUrls]
  split
  · rfl
  · rw [u.splitTokens_text, ClusterUri.address]
    dsimp only [config]
    rw [portOf_port]
    cases resolve net u.host <;> rfl

/-- **The list that the code makes.** -/
theorem rmiUrls_config :
    rmiUrls net n.config caches = .ok (n.uris.flatMap (n.listedUrls net caches)) := by
  have hall : (n.uris.map ClusterUri.text).mapM (urisOf net n.config caches) =
      .ok (n.uris.map (n.listedUrls net caches)) := by
    rw [mapM_eq_ok, List.forall₂_map_left_iff, List.forall₂_map_right_iff, List.forall₂_same]
    exact fun u _ => urisOf_text u
  rw [rmiUrls, getClusterURIs_config, hall]
  rfl

/-- The properties always come out, with that list. -/
theorem createCacheProperties_config :
    createCacheProperties net n.config caches =
      .ok ("peerDiscovery=manual,rmiUrls=".toList ++
        ['|'].intercalate (n.uris.flatMap (n.listedUrls net caches))) := by
  rw [createCacheProperties, rmiUrls_config]
  rfl

/-! ## When the two lists are one -/

/-- The URI that is written like the node leads to the node, if anywhere. -/
theorem address_of_text_eq_current {u : ClusterUri} (h : u.text = n.config.current) :
    u.address net n.port = n.ownAddress net := by
  rw [ClusterUri.text] at h
  cases hu : u.port with
  | none =>
      -- there is no colon in a lone host
      rw [hu] at h
      have hcolon : ':' ∈ n.config.current := by
        simp [ClusterConfig.current, ClusterConfig.withPort]
      rw [← h] at hcolon
      exact absurd hcolon u.host_proper.1
  | some p =>
      rw [hu] at h
      obtain ⟨hhost, -, hp⟩ :=
        (List.append_cons_inj_of_notMem u.host_proper.1 (u.colon_not_mem_port hu)).1 h
      have hport : u.portOr n.port = n.port := by
        have hread : p = (toString n.port).toList := hp
        rw [ClusterUri.portOr, hu, hread]
        exact congrArg Int.ofNat (ofDigitChars_toString n.port)
      rw [ClusterUri.address, ownAddress, hhost, hport]
      rfl

/-- **For one URI** the code lists what it should exactly when there is no
cache, or the URI is not the node's own or is written like the node. -/
theorem expectedUrls_eq_listedUrls_iff {u : ClusterUri} :
    n.expectedUrls net caches u = n.listedUrls net caches u ↔
      caches = [] ∨ (n.IsOwn net u → u.text = n.config.current) := by
  rw [expectedUrls, listedUrls]
  by_cases hown : n.IsOwn net u
  · by_cases htext : u.text = n.config.current
    · rw [if_pos hown, if_pos htext]
      exact iff_of_true rfl (Or.inr fun _ => htext)
    · obtain ⟨⟨ip, port⟩, haddress, -⟩ := id hown
      rw [if_pos hown, if_neg htext, haddress, urlsAt, eq_comm, List.map_eq_nil_iff]
      exact ⟨Or.inl, fun h => h.resolve_right fun hwritten => htext (hwritten hown)⟩
  · refine iff_of_true ?_ (Or.inr fun h => absurd h hown)
    rw [if_neg hown]
    split
    next htext =>
      -- written like the node, but not the node's own: it leads nowhere
      have haddress : u.address net n.port = n.ownAddress net := address_of_text_eq_current htext
      cases hu : u.address net n.port with
      | none => rfl
      | some address => exact absurd ⟨address, hu, haddress ▸ hu⟩ hown
    · rfl

/-- The code lists what it should, and maybe more. -/
theorem expectedUrls_sublist (u : ClusterUri) :
    (n.expectedUrls net caches u).Sublist (n.listedUrls net caches u) := by
  by_cases hown : n.IsOwn net u
  · rw [expectedUrls, if_pos hown]
    exact List.nil_sublist _
  · rw [expectedUrls_eq_listedUrls_iff.2 (Or.inr fun h => absurd h hown)]

/-- **The code lists the peers it should** exactly when there is no cache,
or every URI of the node itself is written with its address and port. -/
theorem rmiUrls_eq_peerUrls_iff (net : Network) (n : ClusterNode) (caches : List Text) :
    rmiUrls net n.config caches = .ok (n.peerUrls net caches) ↔
      caches = [] ∨ ∀ u ∈ n.uris, n.IsOwn net u → u.text = n.config.current := by
  rw [rmiUrls_config, Except.ok.injEq, eq_comm, peerUrls,
    flatMap_eq_iff_of_sublist fun u _ => expectedUrls_sublist u]
  simp only [expectedUrls_eq_listedUrls_iff]
  constructor
  · intro hall
    by_cases hcaches : caches = []
    · exact Or.inl hcaches
    · exact Or.inr fun u hu => (hall u hu).resolve_left hcaches
  · rintro (hcaches | hall) u hu
    · exact Or.inl hcaches
    · exact Or.inr (hall u hu)

/-- A URI of a host alone. -/
def plainUri (host : Text) (hne : host ≠ []) (hproper : ':' ∉ host ∧ ';' ∉ host) : ClusterUri :=
  ⟨host, none, hne, hproper, nofun⟩

/-- Two nodes, written as the template of the configuration shows it. -/
def twoNodes : ClusterNode where
  currentIP := "10.0.0.1".toList
  port := 40003
  uris :=
    [plainUri "10.0.0.1".toList (by decide) (by decide),
      plainUri "10.0.0.2".toList (by decide) (by decide)]

/-- A network in which every host is an address. -/
def addressesOnly : Network := ⟨fun _ => true, fun _ => none⟩

/-- **The node lists itself.** -/
theorem rmiUrls_ne_peerUrls_twoNodes :
    rmiUrls addressesOnly twoNodes.config ["dist_map".toList] =
        .ok ["//10.0.0.1:40003/dist_map".toList, "//10.0.0.2:40003/dist_map".toList] ∧
      rmiUrls addressesOnly twoNodes.config ["dist_map".toList] ≠
        .ok (twoNodes.peerUrls addressesOnly ["dist_map".toList]) := by
  rw [rmiUrls_config, Ne, Except.ok.injEq, Except.ok.injEq]
  decide

end ClusterNode

end Zooffice

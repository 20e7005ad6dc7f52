import Outband.Foundation.UrlPath
import Outband.Httpapi.Routes
import Outband.Inventory.Config

/-!
# Links to the pages of a host

`hostBase` (`internal/httpapi/server.go`) pastes the id of a host into the path of its
pages, and `routes` registers a handler for each suffix of it. `resolveHost` reads the id
back from the path. Nothing escapes the id, which `Load` only trims and checks to be
nonempty and new. A link leads back to its host exactly when the id is plain: it contains
no slash, percent sign, question mark or number sign, and it is not a dot segment.

## Implementation notes

`serve` is the mux of `net/http` under the rules that links rely on. It takes the path as
it was pasted. A byte that a browser sends as an escape is decoded to itself; but a
browser takes a backslash for a slash and leaves out tabs and line breaks, which is left
out here. A redirect to the cleaned path asks for it with `GET` if the request was a
`POST`. At most one pattern matches a request, so that the order of the table does not
matter.
-/

namespace Outband.Httpapi

open Foundation Foundation.UrlPath Inventory

open Foundation.Utf8 (encode encode_append encode_injective)

/-! ### The mux -/

/-- A segment of a pattern, which is a wildcard if it starts with a brace. -/
def parsePart (text : List Char) : Part :=
  if text.head? = some '\x7b' then .wildcard else .literal (encode (String.ofList text))

namespace Route

def pattern (route : Route) : Pattern :=
  let segments := route.path.toList.tail.splitOn '/'
  if segments.getLast? = some "{$}".toList then ⟨segments.dropLast.map parsePart, .slash⟩
  else if segments.getLast? = some [] then ⟨segments.dropLast.map parsePart, .subtree⟩
  else ⟨segments.map parsePart, .exact⟩

/-- The route is for that method. -/
def Allows (route : Route) (method : String) : Prop :=
  ∀ m ∈ route.method, method = m ∨ m = "GET" ∧ method = "HEAD"

instance (route : Route) (method : String) : Decidable (route.Allows method) :=
  inferInstanceAs (Decidable (∀ m ∈ route.method, _))

/-- The values of the wildcards of the route in a path. -/
def captures (route : Route) (segs : List Bytes) : Option (List Bytes) :=
  UrlPath.captures route.pattern.ending route.pattern.parts segs

end Route

/-- The route of a request, and the value of the wildcard in its pattern, which is empty if it has
none. -/
def dispatch (method : String) (segs : List Bytes) : Option (Route × Bytes) :=
  routes.findSome? fun route =>
    if route.Allows method then
      (route.captures segs).map fun values => (route, values.headD [])
    else none

/-- What becomes of a request from a browser, a redirect to the cleaned path included. -/
def serve (request : String × Bytes) : Option (Route × Bytes) :=
  let path := cut request.2
  if unescape path = none then none
  else
    let segs := path.tail.splitOn slash
    if clean segs = segs then dispatch request.1 segs
    else dispatch (if request.1 = "POST" then "GET" else request.1) (clean segs)

/-! ### Links -/

def hostBase (id : String) : String := "/h/" ++ id

/-- The target of `redirectDefault`. -/
def redirectTarget (defaultID suffix : String) : String :=
  if suffix = "" then hostBase defaultID ++ "/" else hostBase defaultID ++ suffix

/-- The suffix that a redirect to the default host keeps. -/
def HandlerName.keptSuffix : HandlerName → Option String
  | .redirectDefault suffix => some suffix
  | _ => none

namespace Route

/-- What the path of a host's page has after the id. -/
def suffix (route : Route) : String :=
  if route.path = hostPrefix ++ "/{$}" then "/"
  else String.ofList (route.path.toList.drop hostPrefix.length)

/-- The request for the page of a host. -/
def link (route : Route) (id : String) : String × Bytes :=
  (route.method.getD "GET", encode (hostBase id ++ route.suffix))

end Route

/-- The host that `resolveHost` finds for a request. -/
def resolveHost (hosts : List HostConfig) (request : String × Bytes) : Option HostConfig :=
  match serve request with
  | some (route, value) =>
      if route.OfHost then hosts.find? fun h => encode h.ID = value else none
  | none => none

/-- Every link of the host is routed to the handler of its suffix, with the id of the host. -/
def Reachable (id : String) : Prop :=
  ∀ route ∈ routes, route.OfHost → serve (route.link id) = some (route, encode id)

/-- No link of a host resolves to a host that a link of another resolves to. -/
def LinksApart (hosts : List HostConfig) : Prop :=
  ∀ a ∈ hosts, ∀ b ∈ hosts, a.ID ≠ b.ID →
    ∀ route ∈ routes, ∀ route' ∈ routes, route.OfHost → route'.OfHost →
    ∀ h h', resolveHost hosts (route.link a.ID) = some h →
      resolveHost hosts (route'.link b.ID) = some h' → h.ID ≠ h'.ID

example : serve ("POST", encode "/h/%61/power") =
    some (⟨some "POST", hostPrefix ++ "/power", .handlePowerAction⟩, encode "a") := by
  decide +kernel

/-! ### The table of patterns -/

/-- Any two routes differ in their methods or in their patterns. -/
theorem routes_apart : ∀ route ∈ routes, ∀ route' ∈ routes, route = route' ∨
    (route.method = some "GET" ∧ route'.method = some "POST") ∨
    (route.method = some "POST" ∧ route'.method = some "GET") ∨
    apart route.pattern.ending route'.pattern.ending route.pattern.parts route'.pattern.parts := by
  decide +kernel

/-- The pattern of a host's route: the id is a wildcard, and the suffix is literal. -/
structure HostPattern (route : Route) : Prop where
  method : route.method = some "GET" ∨ route.method = some "POST"
  parts : route.pattern.parts = .literal (encode "h") :: .wildcard :: route.pattern.parts.drop 2
  captures : UrlPath.captures route.pattern.ending (route.pattern.parts.drop 2)
    (following (encode route.suffix)) = some []
  suffix : Suffix (encode route.suffix)
  stays : ∀ seg ∈ (following (encode route.suffix)).dropLast, Stays seg
  last : ∀ seg ∈ (following (encode route.suffix)).getLast?, Stays seg ∨ seg = []

theorem hostPattern : ∀ route ∈ routes, route.OfHost → HostPattern route := by
  have hall : ∀ route ∈ routes, route.OfHost →
      (route.method = some "GET" ∨ route.method = some "POST") ∧
      route.pattern.parts = .literal (encode "h") :: .wildcard :: route.pattern.parts.drop 2 ∧
      UrlPath.captures route.pattern.ending (route.pattern.parts.drop 2)
        (following (encode route.suffix)) = some [] ∧
      Suffix (encode route.suffix) ∧
      (∀ seg ∈ (following (encode route.suffix)).dropLast, Stays seg) ∧
      ∀ seg ∈ (following (encode route.suffix)).getLast?, Stays seg ∨ seg = [] := by
    decide +kernel
  intro route hroute hhost
  obtain ⟨hmethod, hparts, hcaptures, hsuffix, hstays, hlast⟩ := hall route hroute hhost
  exact ⟨hmethod, hparts, hcaptures, hsuffix, hstays, hlast⟩

/-- A redirect to the default host leads to a link of its page. -/
theorem redirectTarget_link (defaultID : String) {route : Route} (hroute : route ∈ routes)
    {suffix : String} (hsuffix : suffix ∈ route.handler.keptSuffix) :
    ∃ page ∈ routes, page.OfHost ∧
      page.link defaultID = ("GET", encode (redirectTarget defaultID suffix)) := by
  have hall : ∀ route ∈ routes, ∀ suffix ∈ route.handler.keptSuffix,
      ∃ page ∈ routes, page.OfHost ∧ page.method = some "GET" ∧
        page.suffix = if suffix = "" then "/" else suffix := by
    decide +kernel
  obtain ⟨page, hmem, hhost, hmethod, hsuffix⟩ := hall route hroute suffix hsuffix
  refine ⟨page, hmem, hhost, ?_⟩
  rw [Route.link, hmethod, hsuffix, redirectTarget]
  split_ifs <;> rfl

section

variable {method : String} {segs : List Bytes} {route route' : Route} {values values' : List Bytes}
variable {value : Bytes} {id : String}

/-- One route at most is for a method and a path. -/
theorem route_unique (hroute : route ∈ routes) (hroute' : route' ∈ routes)
    (hallows : route.Allows method) (hallows' : route'.Allows method)
    (h : route.captures segs = some values) (h' : route'.captures segs = some values') :
    route = route' := by
  rcases routes_apart route hroute route' hroute' with heq | ⟨hget, hpost⟩ | ⟨hpost, hget⟩ | hapart
  · exact heq
  · have := hallows "GET" hget
    have := hallows' "POST" hpost
    simp_all
  · have := hallows "POST" hpost
    have := hallows' "GET" hget
    simp_all
  · exact (not_both_of_apart hapart h h').elim

theorem dispatch_eq_some (h : dispatch method segs = some (route, value)) :
    route ∈ routes ∧ route.Allows method ∧
      ∃ values, route.captures segs = some values ∧ value = values.headD [] := by
  obtain ⟨found, hmem, hfound⟩ := List.exists_of_findSome?_eq_some h
  split_ifs at hfound with hallows
  obtain ⟨values, hvalues, heq⟩ := Option.map_eq_some_iff.mp hfound
  cases heq
  exact ⟨hmem, hallows, values, hvalues, rfl⟩

/-- The order of the table does not matter. -/
theorem dispatch_of_captures (hroute : route ∈ routes) (hallows : route.Allows method)
    (h : route.captures segs = some values) :
    dispatch method segs = some (route, values.headD []) := by
  cases hdispatch : dispatch method segs with
  | none =>
      have hnone := List.findSome?_eq_none_iff.mp hdispatch route hroute
      rw [if_pos hallows, h] at hnone
      cases hnone
  | some found =>
      obtain ⟨route', value⟩ := found
      obtain ⟨hroute', hallows', values', h', rfl⟩ := dispatch_eq_some hdispatch
      obtain rfl := route_unique hroute hroute' hallows hallows' h h'
      rw [h, Option.some.injEq] at h'
      rw [h']

/-! ### Following a link -/

theorem link_path (route : Route) (id : String) :
    (route.link id).2 = encode "/h/" ++ (encode id ++ encode route.suffix) := by
  rw [Route.link, hostBase, encode_append, encode_append, List.append_assoc]

theorem cut_link (t : Bytes) : cut (encode "/h/" ++ t) = encode "/h/" ++ cut t :=
  cut_append_of_clear (by decide) t

theorem segments_link (t : Bytes) :
    (cut (encode "/h/" ++ t)).tail.splitOn slash = encode "h" :: (cut t).splitOn slash := by
  have hprefix : encode "/h/" = slash :: (encode "h" ++ [slash]) := by decide
  have hh : slash ∉ encode "h" := by decide
  rw [cut_link, hprefix, List.cons_append, List.tail_cons, List.append_assoc,
    List.singleton_append, List.splitOn_append_cons_self_of_not_mem hh]

theorem percent_notMem_link (hsuffix : Suffix (encode route.suffix)) (hplain : Plain (encode id)) :
    percent ∉ cut (route.link id).2 := by
  have hh : percent ∉ encode "/h/" := by decide
  rw [link_path, cut_link, hplain.cut_append, hsuffix.cut_eq, List.mem_append, List.mem_append,
    not_or, not_or]
  exact ⟨hh, hplain.percent_notMem, fun hmem => hsuffix.clear _ hmem List.mem_cons_self⟩

/-- There is nothing to clean in the link of a host with a plain id. -/
theorem clean_link (hpattern : HostPattern route) (hid : Stays (encode id)) :
    clean (encode "h" :: encode id :: following (encode route.suffix)) =
      encode "h" :: encode id :: following (encode route.suffix) := by
  have hh : Stays (encode "h") := by decide
  have hstays := hpattern.stays
  have hlast := hpattern.last
  revert hstays hlast
  rcases List.eq_nil_or_concat' (following (encode route.suffix)) with hnil | ⟨init, last, hcat⟩
  · rw [hnil]
    intro _ _
    have hinit : ∀ seg ∈ [encode "h"], Stays seg := by simpa using hh
    exact clean_eq_self hinit (.inl hid)
  · rw [hcat, List.dropLast_concat, List.getLast?_concat]
    intro hstays hlast
    have hinit : ∀ seg ∈ encode "h" :: encode id :: init, Stays seg :=
      List.forall_mem_cons.mpr ⟨hh, List.forall_mem_cons.mpr ⟨hid, hstays⟩⟩
    exact clean_eq_self hinit (hlast last rfl)

theorem captures_link (hpattern : HostPattern route) (hid : encode id ≠ [])
    (hplain : Plain (encode id)) :
    route.captures (encode "h" :: encode id :: following (encode route.suffix)) =
      some [encode id] := by
  have hh : decode (encode "h") = some (encode "h") := by decide
  have hvalue : decode (encode id) = some (encode id) := by
    rw [decode, if_neg hid, unescape_of_notMem hplain.percent_notMem]
  have hslash : ¬ some (encode id) = some [slash] := fun heq =>
    hplain.slash_notMem (Option.some.inj heq ▸ List.mem_cons_self)
  rw [Route.captures, hpattern.parts]
  simp only [UrlPath.captures, Part.captures, hh, hvalue, if_true, if_neg hslash,
    hpattern.captures]
  rfl

theorem serve_of_clean {request : String × Bytes} (hescapes : percent ∉ cut request.2)
    (hsegs : (cut request.2).tail.splitOn slash = segs) (hclean : clean segs = segs) :
    serve request = dispatch request.1 segs := by
  have hnone : ¬ unescape (cut request.2) = none := by
    rw [unescape_of_notMem hescapes]
    exact Option.some_ne_none _
  simp only [serve, if_neg hnone, hsegs, if_pos hclean]

/-- A request is dispatched by the cleaned path. -/
theorem dispatch_of_serve {request : String × Bytes} (h : serve request = some (route, value)) :
    ∃ method, dispatch method (clean ((cut request.2).tail.splitOn slash)) =
      some (route, value) := by
  simp only [serve] at h
  split_ifs at h with hescapes hclean
  · exact ⟨_, hclean.symm ▸ h⟩
  · exact ⟨_, h⟩
  · exact ⟨_, h⟩

/-- The link of a host with a plain id leads to its page. -/
theorem serve_of_plain (hroute : route ∈ routes) (hhost : route.OfHost) (hid : encode id ≠ [])
    (hplain : Plain (encode id)) : serve (route.link id) = some (route, encode id) := by
  have hpattern := hostPattern route hroute hhost
  have hescapes := percent_notMem_link hpattern.suffix hplain
  have hsegs : (cut (route.link id).2).tail.splitOn slash =
      encode "h" :: encode id :: following (encode route.suffix) := by
    rw [link_path, segments_link, hplain.segments hpattern.suffix]
  have hallows : route.Allows (route.link id).1 := by
    intro m hm
    rw [Route.link, Option.mem_def.mp hm]
    exact .inl rfl
  rw [serve_of_clean hescapes hsegs (clean_link hpattern (hplain.stays hid))]
  exact dispatch_of_captures hroute hallows (captures_link hpattern hid hplain)

/-- A link that gives back the id has a plain one. -/
theorem plain_of_serve (hpattern : HostPattern route) (hid : encode id ≠ [])
    (h : serve (route.link id) = some (route', encode id)) : Plain (encode id) := by
  obtain ⟨method, hdispatch⟩ := dispatch_of_serve h
  obtain ⟨-, -, values, hvalues, hhead⟩ := dispatch_eq_some hdispatch
  have hmem : encode id ∈ values := by
    cases values with
    | nil => exact absurd hhead hid
    | cons first rest => exact hhead ▸ List.mem_cons_self
  obtain ⟨seg, hseg, hnil, hvalue⟩ := unescape_of_captures hvalues hmem
  obtain ⟨hseg, hstays⟩ := mem_of_mem_clean hseg hnil
  rw [link_path, segments_link] at hseg
  rcases List.mem_cons.mp hseg with rfl | hseg
  · have hh : unescape (encode "h") = some (encode "h") := by decide
    rw [hh, Option.some.injEq] at hvalue
    rw [← hvalue]
    decide
  · exact plain_of_unescape hpattern.suffix hseg hstays hvalue

end

theorem encode_ne_nil {id : String} (hid : id ≠ "") : encode id ≠ [] := fun hnil =>
  hid (encode_injective hnil)

/-- A host is reachable by its links exactly when its id is plain. -/
theorem reachable_iff {id : String} (hid : id ≠ "") : Reachable id ↔ Plain (encode id) := by
  constructor
  · intro hreach
    obtain ⟨route, hroute, hhost⟩ : ∃ route ∈ routes, route.OfHost := by decide
    exact plain_of_serve (hostPattern route hroute hhost) (encode_ne_nil hid)
      (hreach route hroute hhost)
  · intro hplain route hroute hhost
    exact serve_of_plain hroute hhost (encode_ne_nil hid) hplain

/-- The links of a reachable host resolve to no other host. -/
theorem resolveHost_of_reachable {hosts : List HostConfig} {h : HostConfig} {id : String}
    {route : Route} (hreach : Reachable id) (hroute : route ∈ routes) (hhost : route.OfHost)
    (hresolve : resolveHost hosts (route.link id) = some h) : h.ID = id := by
  rw [resolveHost, hreach route hroute hhost] at hresolve
  dsimp only at hresolve
  rw [if_pos hhost] at hresolve
  have hsame := List.find?_some hresolve
  exact encode_injective (of_decide_eq_true hsame)

theorem linksApart_of_reachable {hosts : List HostConfig}
    (hreach : ∀ h ∈ hosts, Reachable h.ID) : LinksApart hosts := by
  intro a ha b hb hne route hroute route' hroute' hhost hhost' h h' hlink hlink'
  rw [resolveHost_of_reachable (hreach a ha) hroute hhost hlink,
    resolveHost_of_reachable (hreach b hb) hroute' hhost' hlink']
  exact hne

variable {lower : Char → Char} {settings cfg : Config} {source : Inventory.Source}

/-- The hosts of an inventory that `Load` accepts are reachable by their own links, and only by
their own, if and only if every id is plain. -/
theorem links_reach_iff (hload : Load lower settings source = .ok cfg) :
    ((∀ h ∈ cfg.Hosts, Reachable h.ID) ∧ LinksApart cfg.Hosts) ↔
      ∀ h ∈ cfg.Hosts, Plain (encode h.ID) := by
  have haccepted := (Load_spec hload).1
  have hiff : ∀ h ∈ cfg.Hosts, (Reachable h.ID ↔ Plain (encode h.ID)) := fun h hh =>
    reachable_iff (haccepted.complete h hh).id_ne
  constructor
  · rintro ⟨hreach, -⟩ h hh
    exact (hiff h hh).mp (hreach h hh)
  · intro hplain
    have hreach : ∀ h ∈ cfg.Hosts, Reachable h.ID := fun h hh => (hiff h hh).mpr (hplain h hh)
    exact ⟨hreach, linksApart_of_reachable hreach⟩

/-- An entry of an inventory. -/
def linkedHost (id : String) : HostConfig :=
  { ID := id, Host := "10.0.0.1", User := "root", Password := "x" }

/-- A space and a full stop have no meaning in a path. -/
theorem links_reach_rack : ∃ cfg, Load Char.toLower { UIPass := "x" }
    (.hosts (.ok [linkedHost "rack 1", linkedHost "node-2.lan"])) = .ok cfg ∧
    (∀ h ∈ cfg.Hosts, Reachable h.ID) ∧ LinksApart cfg.Hosts := by
  have htest : ((Load Char.toLower { UIPass := "x" } (.hosts (.ok [linkedHost "rack 1",
      linkedHost "node-2.lan"]))).toOption.any fun cfg =>
        decide (∀ h ∈ cfg.Hosts, Plain (encode h.ID))) = true := by
    decide +kernel
  obtain ⟨cfg, hload, hplain⟩ := exists_ok_of_any htest
  exact ⟨cfg, hload, (links_reach_iff hload).mpr hplain⟩

/-- The power page of the host `%61` is that of the host `a`. -/
theorem links_lead_astray : ∃ cfg, Load Char.toLower { UIPass := "x" }
    (.hosts (.ok [linkedHost "a", linkedHost "%61"])) = .ok cfg ∧
    ¬ (∀ h ∈ cfg.Hosts, Reachable h.ID) ∧ ¬ LinksApart cfg.Hosts := by
  have htest : ((Load Char.toLower { UIPass := "x" } (.hosts (.ok [linkedHost "a",
      linkedHost "%61"]))).toOption.any fun cfg =>
        decide (cfg.Hosts.map HostConfig.ID = ["a", "%61"] ∧
          ∃ route ∈ routes, route.OfHost ∧
            (resolveHost cfg.Hosts (route.link "a")).map HostConfig.ID = some "a" ∧
            (resolveHost cfg.Hosts (route.link "%61")).map HostConfig.ID = some "a")) = true := by
    decide +kernel
  obtain ⟨cfg, hload, hids, route, hroute, hhost, hown, hother⟩ := exists_ok_of_any htest
  have ha : "a" ∈ cfg.Hosts.map HostConfig.ID := by simp [hids]
  have hb : "%61" ∈ cfg.Hosts.map HostConfig.ID := by simp [hids]
  obtain ⟨a, ha, hida⟩ := List.mem_map.mp ha
  obtain ⟨b, hb, hidb⟩ := List.mem_map.mp hb
  obtain ⟨h, hresolve, hid⟩ := Option.map_eq_some_iff.mp hown
  obtain ⟨h', hresolve', hid'⟩ := Option.map_eq_some_iff.mp hother
  refine ⟨cfg, hload, fun hreach => ?_, fun hapart => ?_⟩
  · have hsame := resolveHost_of_reachable (hidb ▸ hreach b hb) hroute hhost hresolve'
    rw [hid'] at hsame
    exact absurd hsame (by decide)
  · have hne : a.ID ≠ b.ID := by
      rw [hida, hidb]
      decide
    rw [← hida] at hresolve
    rw [← hidb] at hresolve'
    exact hapart a ha b hb hne route hroute route hroute hhost hhost h h' hresolve hresolve'
      (hid.trans hid'.symm)

end Outband.Httpapi

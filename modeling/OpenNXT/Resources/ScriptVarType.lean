import Mathlib.Data.List.Nodup
import OpenNXT.Util.TextUtils

/-! The types of script variables, by id and by their legacy character. -/
namespace OpenNXT.Resources
open Buffer Util TextUtils

inductive BaseVarType
  | integer
  | long
  | string
  | coordfine
  deriving DecidableEq

inductive ScriptVarType
  | int | boolean | type2 | quest | questhelp | cursor | seq | colour | locShape | component
  | idkit | midi | npcMode | type13 | synth | type15 | area | stat | npcStat | writeinv | mesh
  | maparea | coordgrid | graphic | chatphrase | fontmetrics | enum | type27 | jingle | chatcat
  | loc | model | npc | obj | playerUid | type35 | string | spotanim | npcUid | inv | texture
  | category | char | laser | bas | type45 | collisionGeometry | physicsModel
  | physicsControlModifier | clanhash | coordfine | cutscene | itemcode | type54 | mapsceneicon
  | clanforumqfc | vorbis | verifyObject | mapelement | categorytype | socialNetwork | hitmark
  | package | particleEffector | type65 | particleEmitter | plogtype | unsignedInt | skybox
  | skydecor | hash64 | inputtype | struct | dbrow | type75 | type76 | type77 | type78 | type79
  | type80 | type81 | type83 | type84 | type85 | type86 | type87 | type88 | gwcPlatform | type90
  | type91 | type92 | type93 | bugTemplate | billingAuthFlag | accountFeatureFlag | interface
  | toplevelinterface | overlayinterface | clientinterface | movespeed | material | seqgroup
  | tempHiscore | tempHiscoreLengthType | tempHiscoreDisplayType | tempHiscoreContributeResult
  | audiogroup | audiomixbuss | long | crmChannel | httpImage | popUpDisplayBehaviour | poll
  | type115 | type116 | pointlight | playerGroup | playerGroupStatus | playerGroupInviteResult
  | playerGroupModifyResult | playerGroupJoinOrCreateResult | playerGroupAffinityModifyResult
  | playerGroupDeltaType | clientType | telemetryInterval | worldarea | type128 | type129
  | type130 | type131 | type200 | type201 | type202 | type203 | type204 | type205 | type206
  | type207 | type208
  deriving DecidableEq

namespace ScriptVarType

def id : ScriptVarType → Word
  | int => 0 | boolean => 1 | type2 => 2 | quest => 3 | questhelp => 4 | cursor => 5 | seq => 6
  | colour => 7 | locShape => 8 | component => 9 | idkit => 10 | midi => 11 | npcMode => 12
  | type13 => 13 | synth => 14 | type15 => 15 | area => 16 | stat => 17 | npcStat => 18
  | writeinv => 19 | mesh => 20 | maparea => 21 | coordgrid => 22 | graphic => 23
  | chatphrase => 24 | fontmetrics => 25 | enum => 26 | type27 => 27 | jingle => 28
  | chatcat => 29 | loc => 30 | model => 31 | npc => 32 | obj => 33 | playerUid => 34
  | type35 => 35 | string => 36 | spotanim => 37 | npcUid => 38 | inv => 39 | texture => 40
  | category => 41 | char => 42 | laser => 43 | bas => 44 | type45 => 45 | collisionGeometry => 46
  | physicsModel => 47 | physicsControlModifier => 48 | clanhash => 49 | coordfine => 50
  | cutscene => 51 | itemcode => 53 | type54 => 54 | mapsceneicon => 55 | clanforumqfc => 56
  | vorbis => 57 | verifyObject => 58 | mapelement => 59 | categorytype => 60
  | socialNetwork => 61 | hitmark => 62 | package => 63 | particleEffector => 64 | type65 => 65
  | particleEmitter => 66 | plogtype => 67 | unsignedInt => 68 | skybox => 69 | skydecor => 70
  | hash64 => 71 | inputtype => 72 | struct => 73 | dbrow => 74 | type75 => 75 | type76 => 76
  | type77 => 77 | type78 => 78 | type79 => 79 | type80 => 80 | type81 => 81 | type83 => 83
  | type84 => 84 | type85 => 85 | type86 => 86 | type87 => 87 | type88 => 88 | gwcPlatform => 89
  | type90 => 90 | type91 => 91 | type92 => 92 | type93 => 93 | bugTemplate => 94
  | billingAuthFlag => 95 | accountFeatureFlag => 96 | interface => 97 | toplevelinterface => 98
  | overlayinterface => 99 | clientinterface => 100 | movespeed => 101 | material => 102
  | seqgroup => 103 | tempHiscore => 104 | tempHiscoreLengthType => 105
  | tempHiscoreDisplayType => 106 | tempHiscoreContributeResult => 107 | audiogroup => 108
  | audiomixbuss => 109 | long => 110 | crmChannel => 111 | httpImage => 112
  | popUpDisplayBehaviour => 113 | poll => 114 | type115 => 115 | type116 => 116
  | pointlight => 117 | playerGroup => 118 | playerGroupStatus => 119
  | playerGroupInviteResult => 120 | playerGroupModifyResult => 121
  | playerGroupJoinOrCreateResult => 122 | playerGroupAffinityModifyResult => 123
  | playerGroupDeltaType => 124 | clientType => 125 | telemetryInterval => 126 | worldarea => 127
  | type128 => 128 | type129 => 129 | type130 => 130 | type131 => 131 | type200 => 200
  | type201 => 201 | type202 => 202 | type203 => 203 | type204 => 204 | type205 => 205
  | type206 => 206 | type207 => 207 | type208 => 208

/-- The legacy character. -/
def c : ScriptVarType → Char
  | int => 'i' | boolean => '1' | type2 => '2' | quest => ':' | questhelp => ',' | cursor => '@'
  | seq => 'A' | colour => 'C' | locShape => 'H' | component => 'I' | idkit => 'K' | midi => 'M'
  | npcMode => 'N' | type13 => 'O' | synth => 'P' | type15 => 'Q' | area => 'R' | stat => 'S'
  | npcStat => 'T' | writeinv => 'V' | mesh => '^' | maparea => '\u0060' | coordgrid => 'c'
  | graphic => 'd' | chatphrase => 'e' | fontmetrics => 'f' | enum => 'g' | type27 => 'h'
  | jingle => 'j' | chatcat => 'k' | loc => 'l' | model => 'm' | npc => 'n' | obj => 'o'
  | playerUid => 'p' | type35 => 'r' | string => 's' | spotanim => 't' | npcUid => 'u'
  | inv => 'v' | texture => 'x' | category => 'y' | char => 'z' | laser => '|' | bas => '\u20ac'
  | type45 => '\u0192' | collisionGeometry => '\u2021' | physicsModel => '\u2030'
  | physicsControlModifier => '\u0160' | clanhash => '\u0152' | coordfine => '\u017d'
  | cutscene => '\u0161' | itemcode => '\u00a1' | type54 => '\u00a2' | mapsceneicon => '\u00a3'
  | clanforumqfc => '\u00a7' | vorbis => '\u00ab' | verifyObject => '\u00ae'
  | mapelement => '\u00b5' | categorytype => '\u00b6' | socialNetwork => '\u00c6'
  | hitmark => '\u00d7' | package => '\u00de' | particleEffector => '\u00e1' | type65 => '\u00e6'
  | particleEmitter => '\u00e9' | plogtype => '\u00ed' | unsignedInt => '\u00ee'
  | skybox => '\u00f3' | skydecor => '\u00fa' | hash64 => '\u00fb' | inputtype => '\u00ce'
  | struct => 'J' | dbrow => '\u00d0' | type75 => '\u00a4' | type76 => '\u00a5'
  | type77 => '\u00e8' | type78 => '\u00b9' | type79 => '\u00b0' | type80 => '\u00ec'
  | type81 => '\u00eb' | type83 => '\u00fe' | type84 => '\u00fd' | type85 => '\u00ff'
  | type86 => '\u00f5' | type87 => '\u00f4' | type88 => '\u00f6' | gwcPlatform => '\u00f2'
  | type90 => '\u00dc' | type91 => '\u00f9' | type92 => '\u00ef' | type93 => '\u00af'
  | bugTemplate => '\u00ea' | billingAuthFlag => '\u00f0' | accountFeatureFlag => '\u00e5'
  | interface => 'a' | toplevelinterface => 'F' | overlayinterface => 'L'
  | clientinterface => '\u00a9' | movespeed => '\u00dd' | material => '\u00ac'
  | seqgroup => '\u00f8' | tempHiscore => '\u00e4' | tempHiscoreLengthType => '\u00e3'
  | tempHiscoreDisplayType => '\u00e2' | tempHiscoreContributeResult => '\u00e0'
  | audiogroup => '\u00c0' | audiomixbuss => '\u00d2' | long => '\u00cf' | crmChannel => '\u00cc'
  | httpImage => '\u00c9' | popUpDisplayBehaviour => '\u00ca' | poll => '\u00f7'
  | type115 => '\u00bc' | type116 => '\u00bd' | pointlight => '\u2022' | playerGroup => '\u00c2'
  | playerGroupStatus => '\u00c3' | playerGroupInviteResult => '\u00c5'
  | playerGroupModifyResult => '\u00cb' | playerGroupJoinOrCreateResult => '\u00cd'
  | playerGroupAffinityModifyResult => '\u00d5' | playerGroupDeltaType => '\u00b2'
  | clientType => '\u00aa' | telemetryInterval => '\u0000' | worldarea => '\u0000'
  | type128 => '\u0000' | type129 => '\u00d8' | type130 => '\u0000' | type131 => '\u02dc'
  | type200 => 'X' | type201 => 'W' | type202 => 'b' | type203 => 'B' | type204 => '4'
  | type205 => 'w' | type206 => 'q' | type207 => '0' | type208 => '6'

/-- What values of the type are stored as. -/
def type : ScriptVarType → BaseVarType
  | type35 | clanhash | clanforumqfc | hash64 | long | type115 | type116 | playerGroup => .long
  | string => .string
  | coordfine => .coordfine
  | _ => .integer

def values : List ScriptVarType := [
  .int, .boolean, .type2, .quest, .questhelp, .cursor, .seq, .colour, .locShape, .component,
  .idkit, .midi, .npcMode, .type13, .synth, .type15, .area, .stat, .npcStat, .writeinv, .mesh,
  .maparea, .coordgrid, .graphic, .chatphrase, .fontmetrics, .enum, .type27, .jingle, .chatcat,
  .loc, .model, .npc, .obj, .playerUid, .type35, .string, .spotanim, .npcUid, .inv, .texture,
  .category, .char, .laser, .bas, .type45, .collisionGeometry, .physicsModel,
  .physicsControlModifier, .clanhash, .coordfine, .cutscene, .itemcode, .type54, .mapsceneicon,
  .clanforumqfc, .vorbis, .verifyObject, .mapelement, .categorytype, .socialNetwork, .hitmark,
  .package, .particleEffector, .type65, .particleEmitter, .plogtype, .unsignedInt, .skybox,
  .skydecor, .hash64, .inputtype, .struct, .dbrow, .type75, .type76, .type77, .type78, .type79,
  .type80, .type81, .type83, .type84, .type85, .type86, .type87, .type88, .gwcPlatform, .type90,
  .type91, .type92, .type93, .bugTemplate, .billingAuthFlag, .accountFeatureFlag, .interface,
  .toplevelinterface, .overlayinterface, .clientinterface, .movespeed, .material, .seqgroup,
  .tempHiscore, .tempHiscoreLengthType, .tempHiscoreDisplayType, .tempHiscoreContributeResult,
  .audiogroup, .audiomixbuss, .long, .crmChannel, .httpImage, .popUpDisplayBehaviour, .poll,
  .type115, .type116, .pointlight, .playerGroup, .playerGroupStatus, .playerGroupInviteResult,
  .playerGroupModifyResult, .playerGroupJoinOrCreateResult, .playerGroupAffinityModifyResult,
  .playerGroupDeltaType, .clientType, .telemetryInterval, .worldarea, .type128, .type129,
  .type130, .type131, .type200, .type201, .type202, .type203, .type204, .type205, .type206,
  .type207, .type208]

def getById (id : Word) : Option ScriptVarType := values.find? fun t => t.id = id

/-- Of the types of one character the last one; `none` is an exception. -/
def getByChar (c : Char) : Option ScriptVarType :=
  if c = 'O' then some .obj
  else if 255 < c.toNat then none
  else (values.filter fun t => (charToCp1252 t.c).toNat = c.toNat).getLast?

theorem getElem?_values (t : ScriptVarType) : values[t.ctorIdx]? = some t := by
  cases t <;> rfl

theorem mem_values (t : ScriptVarType) : t ∈ values := List.mem_of_getElem? (getElem?_values t)

/-- The types stand in the order of their ids. -/
theorem sorted_ids : (values.map fun t => t.id.toNat).Pairwise (· < ·) :=
  List.isChain_iff_pairwise.mp (by decide +kernel)

theorem id_lt (t : ScriptVarType) : t.id.toNat < 256 := by
  have hall : ∀ u ∈ values, u.id.toNat < 256 := by decide +kernel
  exact hall t (mem_values t)

theorem id_injective {t u : ScriptVarType} (h : t.id = u.id) : t = u :=
  List.inj_on_of_nodup_map (sorted_ids.imp fun h => h.ne) (mem_values t) (mem_values u)
    (congrArg BitVec.toNat h)

theorem getById_eq_some {i : Word} {t : ScriptVarType} : getById i = some t ↔ t.id = i := by
  constructor
  · intro h
    simpa using List.find?_some h
  · rintro rfl
    have hfound : (values.find? fun u => u.id = t.id).isSome :=
      List.find?_isSome.mpr ⟨t, mem_values t, by simp⟩
    obtain ⟨u, hu⟩ := Option.isSome_iff_exists.mp hfound
    have hid : u.id = t.id := by simpa using List.find?_some hu
    rw [getById, hu, id_injective hid]

end ScriptVarType

end OpenNXT.Resources

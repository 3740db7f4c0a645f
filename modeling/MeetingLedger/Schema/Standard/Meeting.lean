import MeetingLedger.Schema.Builder

/-! # Collections of a meeting, its participants and groups, its agenda and its projectors -/

namespace MeetingLedger.Schema.Standard

open Schema.Field

def meeting : Collection := .declare "meeting" [
  (plain "id" .number).needed,
  plain "external_id" .string,
  plain "welcome_text" (.html .permissive),
  (plain "name" .string).needed.atMostLong 100,
  (plain "description" .string).atMostLong 100,
  plain "location" .string,
  plain "start_time" .timestamp,
  plain "end_time" .timestamp,
  ((plain "language" .string).allowing ["en", "de", "it", "es", "pt", "cs",
    "fr"]).withDefault (.string "en"),
  one "is_active_in_organization_id" "organization" "active_meeting_ids",
  one "is_archived_in_organization_id" "organization" "archived_meeting_ids",
  one "template_for_organization_id" "organization" "template_meeting_ids",
  (one "committee_id" "committee" "meeting_ids").needed,
  one "default_meeting_for_committee_id" "committee" "default_meeting_id",
  many "organization_tag_ids" "organization_tag" "tagged_ids",
  many "user_ids" "user" "meeting_ids",
  (many "meeting_user_ids" "meeting_user" "meeting_id").cascading,
  (many "group_ids" "group" "meeting_id").cascading,
  (one "default_group_id" "group" "default_group_for_meeting_id").needed,
  one "admin_group_id" "group" "admin_group_for_meeting_id",
  (many "motion_ids" "motion" "meeting_id").cascading,
  (many "motion_state_ids" "motion_state" "meeting_id").cascading,
  (many "motion_workflow_ids" "motion_workflow" "meeting_id").cascading,
  one "motions_default_workflow_id" "motion_workflow" "default_workflow_meeting_id",
  (many "projector_ids" "projector" "meeting_id").cascading,
  one "reference_projector_id" "projector" "used_as_reference_projector_meeting_id",
  (many "all_projection_ids" "projection" "meeting_id").cascading,
  (many "projection_ids" "projection" "content_object_id").cascading,
  (many "topic_ids" "topic" "meeting_id").cascading,
  (many "agenda_item_ids" "agenda_item" "meeting_id").cascading,
  (many "mediafile_ids" "mediafile" "owner_id").cascading,
  (many "meeting_mediafile_ids" "meeting_mediafile" "meeting_id").cascading,
  plain "enable_anonymous" .boolean]

def meetingUser : Collection := .declare "meeting_user" [
  (plain "id" .number).needed,
  plain "comment" (.html .strict),
  plain "number" .string,
  (plain "vote_weight" .decimal).atLeast 1 (-6),
  (one "user_id" "user" "meeting_user_ids").needed,
  (one "meeting_id" "meeting" "meeting_user_ids").needed,
  (many "group_ids" "group" "meeting_user_ids").agreeing ["meeting_id"]]

def group : Collection := .declare "group" [
  (plain "id" .number).needed,
  plain "external_id" .string,
  (plain "name" .string).needed,
  (plains "permissions" .string).allowing ["agenda_item.can_manage", "agenda_item.can_see",
    "mediafile.can_manage", "mediafile.can_see", "meeting.can_manage_settings",
    "meeting.can_see_frontpage", "motion.can_create", "motion.can_manage", "motion.can_see",
    "projector.can_manage", "projector.can_see", "user.can_manage", "user.can_see"],
  plain "weight" .number,
  (many "meeting_user_ids" "meeting_user" "group_ids").agreeing ["meeting_id"],
  (one "default_group_for_meeting_id" "meeting" "default_group_id").protecting,
  (one "admin_group_for_meeting_id" "meeting" "admin_group_id").protecting,
  (many "meeting_mediafile_access_group_ids" "meeting_mediafile"
    "access_group_ids").agreeing ["meeting_id"],
  (many "meeting_mediafile_inherited_access_group_ids" "meeting_mediafile"
    "inherited_access_group_ids").agreeing ["meeting_id"],
  (one "meeting_id" "meeting" "group_ids").needed]

def projector : Collection := .declare "projector" [
  (plain "id" .number).needed,
  plain "name" .string,
  (plain "width" .number).atLeast 1 0,
  (plain "aspect_ratio_numerator" .number).atLeast 1 0,
  (plain "aspect_ratio_denominator" .number).atLeast 1 0,
  plain "color" .color,
  (plain "scroll" .number).atLeast 0 0,
  plain "scale" .number,
  (many "current_projection_ids" "projection" "current_projector_id").agreeing ["meeting_id"],
  (one "used_as_reference_projector_meeting_id" "meeting" "reference_projector_id").protecting,
  (one "meeting_id" "meeting" "projector_ids").needed]

/-- What a screen shows, showed or will show. -/
def projection : Collection := .declare "projection" [
  (plain "id" .number).needed,
  plain "options" .json,
  (plain "stable" .boolean).withDefault (.boolean false),
  plain "type" .string,
  plain "weight" .number,
  (one "current_projector_id" "projector" "current_projection_ids").agreeing ["meeting_id"],
  (oneOf "content_object_id" [("meeting", "projection_ids"), ("motion", "projection_ids"),
    ("topic", "projection_ids"), ("agenda_item", "projection_ids"),
    ("meeting_mediafile", "projection_ids")]).needed,
  (one "meeting_id" "meeting" "all_projection_ids").needed]

def topic : Collection := .declare "topic" [
  (plain "id" .number).needed,
  (plain "title" .string).needed,
  plain "text" (.html .permissive),
  plain "sequential_number" .number,
  (one "agenda_item_id" "agenda_item" "content_object_id").cascading.agreeing ["meeting_id"],
  (many "projection_ids" "projection" "content_object_id").cascading.agreeing ["meeting_id"],
  (one "meeting_id" "meeting" "topic_ids").needed]

def agendaItem : Collection := .declare "agenda_item" [
  (plain "id" .number).needed,
  plain "item_number" .string,
  plain "comment" .string,
  plain "closed" .boolean,
  ((plain "type" .string).allowing ["common", "internal", "hidden"]).withDefault (.string "common"),
  (plain "duration" .number).atLeast 0 0,
  plain "weight" .number,
  (oneOf "content_object_id" [("motion", "agenda_item_id"), ("topic",
    "agenda_item_id")]).needed.agreeing ["meeting_id"],
  (one "parent_id" "agenda_item" "child_ids").agreeing ["meeting_id"],
  (many "child_ids" "agenda_item" "parent_id").agreeing ["meeting_id"],
  (many "projection_ids" "projection" "content_object_id").cascading.agreeing ["meeting_id"],
  (one "meeting_id" "meeting" "agenda_item_ids").needed]

end MeetingLedger.Schema.Standard

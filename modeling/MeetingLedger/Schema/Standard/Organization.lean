import MeetingLedger.Schema.Builder

/-! # Collections of the organization, its themes, committees, tags and users -/

namespace MeetingLedger.Schema.Standard

open Schema.Field

def organization : Collection := .declare "organization" [
  (plain "id" .number).needed,
  plain "name" .string,
  plain "description" (.html .strict),
  (plain "url" .string).matching "^https?://",
  (plain "default_language" .string).allowing ["en", "de", "it", "es", "pt", "cs", "fr"],
  (plain "limit_of_meetings" .number).atLeast 0 0,
  plain "enable_electronic_voting" .boolean,
  (one "theme_id" "theme" "theme_for_organization_id").needed,
  many "theme_ids" "theme" "organization_id",
  many "committee_ids" "committee" "organization_id",
  many "active_meeting_ids" "meeting" "is_active_in_organization_id",
  many "archived_meeting_ids" "meeting" "is_archived_in_organization_id",
  many "template_meeting_ids" "meeting" "template_for_organization_id",
  many "organization_tag_ids" "organization_tag" "organization_id",
  many "user_ids" "user" "organization_id",
  (many "mediafile_ids" "mediafile" "owner_id").cascading]

def theme : Collection := .declare "theme" [
  (plain "id" .number).needed,
  (plain "name" .string).needed,
  plain "accent_100" .color,
  (plain "accent_500" .color).needed,
  plain "primary_100" .color,
  (plain "primary_500" .color).needed,
  plain "warn_100" .color,
  (plain "warn_500" .color).needed,
  plain "headbar" .color,
  (one "organization_id" "organization" "theme_ids").needed,
  (one "theme_for_organization_id" "organization" "theme_id").protecting]

def committee : Collection := .declare "committee" [
  (plain "id" .number).needed,
  (plain "name" .string).needed,
  plain "description" .string,
  plain "external_id" .string,
  (many "meeting_ids" "meeting" "committee_id").protecting,
  one "default_meeting_id" "meeting" "default_meeting_for_committee_id",
  many "user_ids" "user" "committee_ids",
  many "manager_ids" "user" "committee_management_ids",
  many "organization_tag_ids" "organization_tag" "tagged_ids",
  (one "organization_id" "organization" "committee_ids").needed]

def organizationTag : Collection := .declare "organization_tag" [
  (plain "id" .number).needed,
  (plain "name" .string).needed,
  (plain "color" .color).needed,
  manyOf "tagged_ids" [("committee", "organization_tag_ids"), ("meeting", "organization_tag_ids")],
  (one "organization_id" "organization" "organization_tag_ids").needed]

def user : Collection := .declare "user" [
  (plain "id" .number).needed,
  (plain "username" .string).needed,
  plain "first_name" .string,
  plain "last_name" .string,
  plain "email" .string,
  (plain "is_active" .boolean).withDefault (.boolean true),
  ((plain "default_vote_weight" .decimal).atLeast 1 (-6)).withDefault (.string "1.000000"),
  plain "last_email_sent" .timestamp,
  plain "last_login" .timestamp,
  (plain "organization_management_level" .string).allowing ["superadmin",
    "can_manage_organization", "can_manage_users"],
  one "organization_id" "organization" "user_ids",
  many "committee_ids" "committee" "user_ids",
  many "committee_management_ids" "committee" "manager_ids",
  many "meeting_ids" "meeting" "user_ids",
  (many "meeting_user_ids" "meeting_user" "user_id").cascading]

end MeetingLedger.Schema.Standard

import OrderRelay.Main
import OrderRelay.Meter.Exposition
import OrderRelay.Relay.Visit
import OrderRelay.Signal.Launch
import OrderRelay.Trades.Forwarding
import OrderRelay.Proofs.Client.Naming
import OrderRelay.Proofs.Front.Limits
import OrderRelay.Proofs.Front.Refusals
import OrderRelay.Proofs.Front.RequestIds
import OrderRelay.Proofs.Front.Translation
import OrderRelay.Proofs.Relay.Traffic
import OrderRelay.Proofs.Rpc.Expiry
import OrderRelay.Proofs.Settings.Sources
import OrderRelay.Proofs.Trades.Subscriptions
import OrderRelay.Proofs.Signal.Startup
import OrderRelay.Proofs.Front.Oversize
import OrderRelay.Proofs.Front.Rearranging
import OrderRelay.Proofs.Front.Spellings
import OrderRelay.Proofs.Order.Requirements
import OrderRelay.Proofs.Front.Quantities
import OrderRelay.Proofs.Settings.Rules
import OrderRelay.Proofs.Signal.Backlog
import OrderRelay.Proofs.Trades.Chatter
import OrderRelay.Proofs.Meter.Measuring
import OrderRelay.Proofs.Service.Starting
import OrderRelay.Proofs.Message.Merging
import OrderRelay.Proofs.Message.Reworking
import OrderRelay.Proofs.Trades.Reasons
